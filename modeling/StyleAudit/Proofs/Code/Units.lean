import Mathlib.Algebra.Ring.Int.Defs
import StyleAudit.Code.Operators
import StyleAudit.Code.Reader

/-!
# Reading one unit

`read` goes through a text character by character. The equations here take it over a whole unit at
once: a character of code, a comment, a literal, a character of a template, the start of a hole.

What a unit looks like is said without the machine: `OpensComment` for the one place where a
character needs the next one, `IsComment` and `LiteralBody` for the two kinds of text that are
skipped whole. The count of open brackets is kept apart from the units: `Lexeme.rise` is what a
lexeme adds to it, and `Extent.Holds` says that code runs on inside a stretch without ending it.
-/

namespace StyleAudit

/-! ## What units look like -/

/-- Whether a character starts a comment, by the character behind it. -/
def OpensComment (c : Char) (next : Option Char) : Prop :=
  c = '/' ∧ (next = some '/' ∨ next = some '*')

/-- A comment, marks included, in front of the character `next`; `none` is the end of the text. -/
inductive IsComment : List Char → Option Char → Prop where
  /-- Two slashes and what follows on the line; the line feed behind is no part of it. -/
  | line {body : List Char} {next : Option Char} (hbody : '\n' ∉ body)
      (hnext : next = none ∨ next = some '\n') : IsComment ('/' :: '/' :: body) next
  /-- A slash, an asterisk and what follows up to the first asterisk and slash. -/
  | block {body : List Char} (next : Option Char) (hbody : ¬ ['*', '/'] <:+: body ++ ['*']) :
      IsComment ('/' :: '*' :: (body ++ ['*', '/'])) next
  /-- A slash and an asterisk without an asterisk and slash behind them: the text ends first. -/
  | openBlock {body : List Char} (hbody : ¬ ['*', '/'] <:+: body) :
      IsComment ('/' :: '*' :: body) none

theorem IsComment.head?_eq {text : List Char} {next : Option Char} (h : IsComment text next) :
    text.head? = some '/' := by
  cases h <;> rfl

/-- What can stand between two copies of a quote: a backslash with any character, or a character
other than the quote, a backslash and a line feed. -/
inductive LiteralBody (quote : Char) : List Char → Prop where
  | nil : LiteralBody quote []
  | escape (c : Char) {body : List Char} (hbody : LiteralBody quote body) :
      LiteralBody quote ('\\' :: c :: body)
  | char {c : Char} {body : List Char} (hslash : c ≠ '\\') (hquote : c ≠ quote) (hline : c ≠ '\n')
      (hbody : LiteralBody quote body) : LiteralBody quote (c :: body)

/-- A quote of the kind that ends at a line feed. -/
def IsPlainQuote (quote : Char) : Prop := quote = '"' ∨ quote = '\''

theorem isQuote_iff {c : Char} : isQuote c = true ↔ c = backtick ∨ IsPlainQuote c := by
  simp only [isQuote, IsPlainQuote, Bool.or_eq_true, beq_iff_eq]
  exact or_comm

theorem isQuote_backtick : isQuote backtick = true := isQuote_iff.2 (.inl rfl)

theorem IsPlainQuote.isQuote {c : Char} (h : IsPlainQuote c) : isQuote c = true :=
  isQuote_iff.2 (.inr h)

theorem IsPlainQuote.ne_backtick {c : Char} (h : IsPlainQuote c) : c ≠ backtick := by
  rcases h with rfl | rfl <;> decide

theorem IsPlainQuote.ne_slash {c : Char} (h : IsPlainQuote c) : c ≠ '\\' := by
  rcases h with rfl | rfl <;> decide

theorem not_isCloser_of_isOpener {c : Char} (h : isOpener c = true) : isCloser c = false := by
  simp only [isOpener, Bool.or_eq_true, beq_iff_eq] at h
  rcases h with (rfl | rfl) | rfl <;> decide

theorem not_isOpener_of_isCloser {c : Char} (h : isCloser c = true) : isOpener c = false := by
  simp only [isCloser, Bool.or_eq_true, beq_iff_eq] at h
  rcases h with (rfl | rfl) | rfl <;> decide

theorem not_isQuote_of_isOpener {c : Char} (h : isOpener c = true) : isQuote c = false := by
  simp only [isOpener, Bool.or_eq_true, beq_iff_eq] at h
  rcases h with (rfl | rfl) | rfl <;> decide

theorem not_isQuote_of_isCloser {c : Char} (h : isCloser c = true) : isQuote c = false := by
  simp only [isCloser, Bool.or_eq_true, beq_iff_eq] at h
  rcases h with (rfl | rfl) | rfl <;> decide

theorem ne_slash_of_isOpener {c : Char} (h : isOpener c = true) : c ≠ '/' := by
  intro hc
  subst hc
  exact absurd h (by decide)

theorem ne_slash_of_isCloser {c : Char} (h : isCloser c = true) : c ≠ '/' := by
  intro hc
  subst hc
  exact absurd h (by decide)

/-! ## The count of open brackets -/

/-- How many more brackets are open behind a lexeme than in front of it. -/
def Lexeme.rise : Lexeme → Int
  | .char c => if isOpener c then 1 else if isCloser c then -1 else 0
  | _ => 0

theorem Lexeme.neg_one_le_rise (lexeme : Lexeme) : -1 ≤ lexeme.rise := by
  cases lexeme with
  | char c =>
    simp only [Lexeme.rise]
    split
    · decide
    · split <;> decide
  | _ => simp [Lexeme.rise]

theorem Lexeme.rise_of_isOpener {c : Char} (h : isOpener c = true) : Lexeme.rise (.char c) = 1 := by
  simp [Lexeme.rise, h]

theorem Lexeme.rise_of_isCloser {c : Char} (h : isCloser c = true) :
    Lexeme.rise (.char c) = -1 := by
  simp [Lexeme.rise, h, not_isOpener_of_isCloser h]

theorem Lexeme.rise_of_ne_char {lexeme : Lexeme} (h : ∀ c, lexeme ≠ .char c) :
    lexeme.rise = 0 := by
  cases lexeme with
  | char c => exact absurd rfl (h c)
  | _ => rfl

theorem exists_closer_of_rise {lexeme : Lexeme} (h : lexeme.rise = -1) :
    ∃ c, lexeme = .char c ∧ isOpener c = false ∧ isCloser c = true := by
  cases lexeme with
  | char c =>
    by_cases hclose : isCloser c = true
    · exact ⟨c, rfl, not_isOpener_of_isCloser hclose, hclose⟩
    · simp only [Lexeme.rise, if_neg hclose] at h
      split at h <;> simp at h
  | _ => simp [Lexeme.rise] at h

namespace Code

/-- How many more brackets are open behind code than in front of it. -/
def rise (code : Code) : Int := (code.map Lexeme.rise).sum

@[simp] theorem rise_nil : rise [] = 0 := rfl

@[simp] theorem rise_cons (lexeme : Lexeme) (code : Code) :
    rise (lexeme :: code) = lexeme.rise + rise code := by
  simp [rise]

@[simp] theorem rise_append (a b : Code) : rise (a ++ b) = rise a + rise b := by
  simp [rise]

/-- The bracket that ends code in two parts ends the first part, or it is in the second. -/
theorem afterCloser_append (depth : Int) (a b : Code) :
    afterCloser depth (a ++ b)
      = match afterCloser depth a with
        | some rest => some (rest ++ b)
        | none => afterCloser (depth + rise a) b := by
  fun_induction afterCloser depth a with
  | case1 depth => simp
  | case2 depth c rest hopen ih =>
    rw [List.cons_append, afterCloser, if_pos hopen, ih, rise_cons,
      Lexeme.rise_of_isOpener hopen, Int.add_assoc]
  | case3 c rest hopen hclose =>
    rw [List.cons_append, afterCloser, if_neg hopen, if_pos hclose, if_pos rfl]
  | case4 depth c rest hopen hclose hdepth ih =>
    -- the bracket closes one that is not the last open one
    rw [List.cons_append, afterCloser, if_neg hopen, if_pos hclose, if_neg hdepth, ih, rise_cons,
      Lexeme.rise_of_isCloser hclose, Int.sub_eq_add_neg, Int.add_assoc]
  | case5 depth c rest hopen hclose ih =>
    rw [List.cons_append, afterCloser, if_neg hopen, if_neg hclose, ih, rise_cons, Lexeme.rise,
      if_neg hopen, if_neg hclose, Int.zero_add]
  | case6 depth lexeme rest hchar ih =>
    rw [List.cons_append, afterCloser, ih, rise_cons, Lexeme.rise_of_ne_char hchar, Int.zero_add]
    exact hchar

end Code

namespace Extent

/-- The extent of a stretch when `change` more brackets are open. -/
def raise : Extent → Int → Extent
  | .bracket depth, change => .bracket (depth + change)
  | extent, _ => extent

/-- Whether a stretch goes on behind code: none of its closing brackets ends the stretch. -/
def Holds : Extent → Code → Prop
  | .bracket depth, code => Code.afterCloser depth code = none
  | .wholeText, _ => True
  | .oneUnit, _ => False

@[simp] theorem raise_zero (extent : Extent) : extent.raise 0 = extent := by
  cases extent <;> simp [raise]

theorem raise_raise (extent : Extent) (m n : Int) :
    (extent.raise m).raise n = extent.raise (m + n) := by
  cases extent <;> simp [raise, Int.add_assoc]

/-- Behind a lexeme that does not end the stretch, the count goes on with what it added. -/
theorem holds_cons {extent : Extent} {lexeme : Lexeme} {code : Code} :
    extent.Holds (lexeme :: code)
      ↔ extent.Holds [lexeme] ∧ (extent.raise lexeme.rise).Holds code := by
  cases extent with
  | wholeText => simp [Holds, raise]
  | oneUnit => simp [Holds]
  | bracket depth =>
    have h := Code.afterCloser_append depth [lexeme] code
    rw [List.singleton_append, Code.rise_cons, Code.rise_nil, Int.add_zero] at h
    simp only [Holds, raise, h]
    cases Code.afterCloser depth [lexeme] <;> simp

theorem holds_append {extent : Extent} {a b : Code} :
    extent.Holds (a ++ b) ↔ extent.Holds a ∧ (extent.raise a.rise).Holds b := by
  induction a generalizing extent with
  | nil => cases extent <;> simp [Holds, raise, Code.afterCloser]
  | cons lexeme a ih =>
    rw [List.cons_append, holds_cons, @holds_cons extent lexeme a, ih, Code.rise_cons, raise_raise,
      and_assoc]

/-- A lexeme ends a stretch between brackets only if it closes the last open one. -/
theorem bracket_holds_singleton_iff {depth : Int} {lexeme : Lexeme} :
    (Extent.bracket depth).Holds [lexeme] ↔ (lexeme.rise = -1 → depth ≠ 1) := by
  cases lexeme with
  | char c =>
    by_cases hopen : isOpener c = true
    · simp [Holds, Code.afterCloser, Lexeme.rise, hopen]
    · by_cases hclose : isCloser c = true
      · simp [Holds, Code.afterCloser, Lexeme.rise, hopen, hclose]
      · simp [Holds, Code.afterCloser, Lexeme.rise, hopen, hclose]
  | _ => simp [Holds, Code.afterCloser, Lexeme.rise]

/-- Where one bracket more is open a stretch runs on at least as far. -/
theorem holds_of_deeper {depth : Int} {code : Code} (hdepth : 1 ≤ depth)
    (h : (Extent.bracket depth).Holds code) : (Extent.bracket (depth + 1)).Holds code := by
  induction code generalizing depth with
  | nil => rfl
  | cons lexeme code ih =>
    obtain ⟨hlexeme, hcode⟩ := holds_cons.1 h
    -- a lexeme closes at most one bracket, and not the last open one
    have hleast : -1 ≤ lexeme.rise := lexeme.neg_one_le_rise
    have hpositive : 1 ≤ depth + lexeme.rise := by
      have hends := bracket_holds_singleton_iff.1 hlexeme
      omega
    rw [holds_cons, bracket_holds_singleton_iff]
    constructor
    · intro _
      omega
    · have hdeeper := ih hpositive hcode
      rwa [Int.add_right_comm] at hdeeper

theorem Holds.ne_oneUnit {extent : Extent} {code : Code} (h : extent.Holds code) :
    extent ≠ .oneUnit := by
  intro hextent
  subst hextent
  exact h

end Extent

/-- A frame behind code that does not end its stretch. -/
def Frame.past (frame : Frame) (code : Code) : Frame :=
  ⟨frame.extent.raise code.rise, code.reverse ++ frame.units⟩

@[simp] theorem Frame.past_nil (frame : Frame) : frame.past [] = frame := by
  simp [Frame.past]

theorem Frame.past_cons (frame : Frame) (lexeme : Lexeme) (code : Code) :
    frame.past (lexeme :: code) = (frame.past [lexeme]).past code := by
  simp [Frame.past, Extent.raise_raise]

/-! ## One step of the machine

`read` is used through these equations, one for each kind of state. -/

section Steps

variable (frame : Frame) (holes : List Hole) (c : Char) (rest : List Char)

theorem read_nil (state : ReaderState) : read state [] = state.atEnd := by
  exact read.eq_def state []

theorem read_code_cons :
    read (.code frame holes) (c :: rest) =
      if c = backtick then read (.template [] (c :: rest) frame holes) rest
      else if isQuote c then read (.literal c [] (c :: rest) frame holes) rest
      else if c = '/' then
        match rest with
        | '/' :: rest' => read (.lineComment ['/', '/'] frame holes) rest'
        | '*' :: rest' => read (.blockComment ['*', '/'] frame holes) rest'
        | rest => read (.code (frame.push (.char c)) holes) rest
      else if isOpener c then read (.code ((frame.deepen 1).push (.char c)) holes) rest
      else if isCloser c then
        if frame.endsAtCloser then
          match holes with
          | [] => .closed frame.code c rest
          | hole :: outer =>
            read (.template (.hole frame.code c :: hole.parts) hole.start hole.frame outer) rest
        else read (.code ((frame.deepen (-1)).push (.char c)) holes) rest
      else read (.code (frame.push (.char c)) holes) rest := by
  exact read.eq_def (.code frame holes) (c :: rest)

theorem read_lineComment_cons (done : List Char) :
    read (.lineComment done frame holes) (c :: rest) =
      if c = '\n' then
        read (.code ((frame.push (.comment done.reverse)).push (.char c)) holes) rest
      else read (.lineComment (c :: done) frame holes) rest := by
  exact read.eq_def (.lineComment done frame holes) (c :: rest)

theorem read_blockComment_cons (done : List Char) :
    read (.blockComment done frame holes) (c :: rest) =
      if c = '*' then
        match rest with
        | '/' :: rest' =>
          read (.code (frame.push (.comment ('/' :: '*' :: done).reverse)) holes) rest'
        | rest => read (.blockComment (c :: done) frame holes) rest
      else read (.blockComment (c :: done) frame holes) rest := by
  exact read.eq_def (.blockComment done frame holes) (c :: rest)

theorem read_literal_cons (quote : Char) (done start : List Char) :
    read (.literal quote done start frame holes) (c :: rest) =
      if c = '\\' then
        match rest with
        | [] => .openQuote start
        | escaped :: rest' => read (.literal quote (escaped :: c :: done) start frame holes) rest'
      else if c = quote then
        if frame.extent = .oneUnit then
          .closed (frame.push (.literal quote done.reverse)).code c rest
        else read (.code (frame.push (.literal quote done.reverse)) holes) rest
      else if c = '\n' then .openQuote start
      else read (.literal quote (c :: done) start frame holes) rest := by
  exact read.eq_def (.literal quote done start frame holes) (c :: rest)

theorem read_template_cons (done : List Part) (start : List Char) :
    read (.template done start frame holes) (c :: rest) =
      if c = '\\' then
        match rest with
        | [] => .openQuote start
        | escaped :: rest' =>
          read (.template (.char escaped :: .char c :: done) start frame holes) rest'
      else if c = backtick then
        if frame.extent = .oneUnit then .closed (frame.push (.template done.reverse)).code c rest
        else read (.code (frame.push (.template done.reverse)) holes) rest
      else if c = '$' then
        match rest with
        | '\x7b' :: rest' => read (.code ⟨.bracket 1, []⟩ (⟨done, start, frame⟩ :: holes)) rest'
        | rest => read (.template (.char c :: done) start frame holes) rest
      else read (.template (.char c :: done) start frame holes) rest := by
  exact read.eq_def (.template done start frame holes) (c :: rest)

end Steps

/-! ## Code -/

section Code

variable {frame : Frame} {holes : List Hole}

theorem deepen_push (change : Int) (c : Char) (h : Lexeme.rise (.char c) = change) :
    (frame.deepen change).push (.char c) = frame.past [.char c] := by
  obtain ⟨extent, units⟩ := frame
  cases extent <;> simp [Frame.deepen, Frame.push, Frame.past, Extent.raise, h]

theorem push_of_rise_eq_zero (lexeme : Lexeme) (h : lexeme.rise = 0) :
    frame.push lexeme = frame.past [lexeme] := by
  simp [Frame.push, Frame.past, h]

/-- A character that opens neither a quoted unit nor a comment is a lexeme of its own, unless it
is the bracket that ends the stretch. -/
theorem read_char {c : Char} {rest : List Char} (hquote : isQuote c = false)
    (hcomment : ¬ OpensComment c rest.head?) (hholds : frame.extent.Holds [.char c]) :
    read (.code frame holes) (c :: rest) = read (.code (frame.past [.char c]) holes) rest := by
  have htick : c ≠ backtick := by
    intro hc
    subst hc
    exact absurd isQuote_backtick (by simp [hquote])
  rw [read_code_cons, if_neg htick, if_neg (by simp [hquote])]
  by_cases hslash : c = '/'
  · subst hslash
    -- neither of the two characters that make the slash a comment stands behind it
    rw [if_pos rfl, ← push_of_rise_eq_zero (.char '/') (by decide)]
    split
    · exact absurd ⟨rfl, .inl rfl⟩ hcomment
    · exact absurd ⟨rfl, .inr rfl⟩ hcomment
    · rfl
  rw [if_neg hslash]
  by_cases hopen : isOpener c = true
  · rw [if_pos hopen, deepen_push 1 c (Lexeme.rise_of_isOpener hopen)]
  rw [if_neg hopen]
  by_cases hclose : isCloser c = true
  · have hends : ¬ frame.endsAtCloser = true := by
      intro hends
      rw [of_decide_eq_true hends] at hholds
      simp [Extent.Holds, Code.afterCloser, hopen, hclose] at hholds
    rw [if_pos hclose, if_neg hends, deepen_push (-1) c (Lexeme.rise_of_isCloser hclose)]
  · rw [if_neg hclose, push_of_rise_eq_zero _ (by simp [Lexeme.rise, hopen, hclose])]

/-- The bracket that ends a stretch. -/
theorem read_closer {c : Char} {rest : List Char} (hclose : isCloser c = true)
    (hends : frame.extent = .bracket 1) :
    read (.code frame holes) (c :: rest) =
      match holes with
      | [] => .closed frame.code c rest
      | hole :: outer =>
        read (.template (.hole frame.code c :: hole.parts) hole.start hole.frame outer) rest := by
  have hopen : ¬ isOpener c = true := by
    intro hopen
    simp [not_isCloser_of_isOpener hopen] at hclose
  have htick : c ≠ backtick := by
    intro hc
    subst hc
    exact absurd hclose (by decide)
  rw [read_code_cons, if_neg htick, if_neg (by simp [not_isQuote_of_isCloser hclose]),
    if_neg (ne_slash_of_isCloser hclose), if_neg hopen, if_pos hclose,
    if_pos (by simp [Frame.endsAtCloser, hends])]

/-! ## Comments -/

/-- A line feed is a lexeme of its own wherever code is read. -/
theorem read_lineFeed (rest : List Char) :
    read (.code frame holes) ('\n' :: rest)
      = read (.code (frame.push (.char '\n')) holes) rest := by
  rw [read_code_cons, if_neg (by decide), if_neg (by decide), if_neg (by decide),
    if_neg (by decide), if_neg (by decide)]

theorem read_lineComment (done : List Char) {body rest : List Char} (hbody : '\n' ∉ body)
    (hnext : rest.head? = none ∨ rest.head? = some '\n') :
    read (.lineComment done frame holes) (body ++ rest)
      = read (.code (frame.push (.comment (body.reverse ++ done).reverse)) holes) rest := by
  induction body generalizing done with
  | nil =>
    cases rest with
    | nil => rw [List.nil_append, read_nil, read_nil]; rfl
    | cons c rest =>
      obtain rfl : c = '\n' := by simpa using hnext
      -- the line feed ends the comment and is read as code, as it would be behind it
      rw [List.nil_append, read_lineComment_cons, if_pos rfl, read_lineFeed, List.reverse_nil,
        List.nil_append]
  | cons c body ih =>
    rw [List.mem_cons, not_or] at hbody
    rw [List.cons_append, read_lineComment_cons, if_neg (Ne.symm hbody.1), ih (c :: done) hbody.2]
    simp

theorem read_blockComment_char (done : List Char) {c : Char} {rest : List Char}
    (h : ¬ (c = '*' ∧ rest.head? = some '/')) :
    read (.blockComment done frame holes) (c :: rest)
      = read (.blockComment (c :: done) frame holes) rest := by
  rw [read_blockComment_cons]
  split
  · split
    · simp_all
    · rfl
  · rfl

/-- Inside a block comment the text is passed over as long as it has no asterisk and slash. -/
theorem read_blockComment_append (done : List Char) {body rest : List Char}
    (h : ¬ ['*', '/'] <:+: body ++ rest.take 1) :
    read (.blockComment done frame holes) (body ++ rest)
      = read (.blockComment (body.reverse ++ done) frame holes) rest := by
  induction body generalizing done with
  | nil => rfl
  | cons c body ih =>
    -- an asterisk here and a slash behind it would be the end of the comment
    have hstep : ¬ (c = '*' ∧ (body ++ rest).head? = some '/') := by
      rintro ⟨rfl, hhead⟩
      apply h
      cases body with
      | nil =>
        obtain ⟨rest, rfl⟩ := List.head?_eq_some_iff.1 hhead
        exact ⟨[], [], rfl⟩
      | cons d body =>
        obtain rfl : d = '/' := by simpa using hhead
        exact ⟨[], body ++ rest.take 1, rfl⟩
    have hbody : ¬ ['*', '/'] <:+: body ++ rest.take 1 := by
      intro hslice
      exact h (hslice.trans (List.suffix_cons c _).isInfix)
    rw [List.cons_append, read_blockComment_char done hstep, ih (c :: done) hbody]
    simp

/-- A comment is a lexeme of its own. -/
theorem read_comment {text rest : List Char} (h : IsComment text rest.head?) :
    read (.code frame holes) (text ++ rest)
      = read (.code (frame.past [.comment text]) holes) rest := by
  rw [← push_of_rise_eq_zero (.comment text) rfl]
  generalize hnext : rest.head? = next at h
  cases h with
  | line hbody hend =>
    rw [List.cons_append, List.cons_append, read_code_cons, if_neg (by decide),
      if_neg (by decide), if_pos rfl]
    subst hnext
    have hpast : read (.lineComment ['/', '/'] frame holes) _ = _ := read_lineComment _ hbody hend
    simpa using hpast
  | @block body next hbody =>
    have hpast : read (.blockComment ['*', '/'] frame holes) (body ++ '*' :: '/' :: rest)
        = read (.blockComment (body.reverse ++ ['*', '/']) frame holes) ('*' :: '/' :: rest) :=
      read_blockComment_append _ (by simpa using hbody)
    simp only [List.cons_append, List.append_assoc, List.nil_append]
    rw [read_code_cons, if_neg (by decide), if_neg (by decide), if_pos rfl]
    simp only
    rw [hpast, read_blockComment_cons, if_pos rfl]
    simp
  | @openBlock body hbody =>
    obtain rfl : rest = [] := List.head?_eq_none_iff.1 hnext
    have hpast : read (.blockComment ['*', '/'] frame holes) (body ++ [])
        = read (.blockComment (body.reverse ++ ['*', '/']) frame holes) [] :=
      read_blockComment_append _ (by simpa using hbody)
    simp only [List.cons_append]
    rw [read_code_cons, if_neg (by decide), if_neg (by decide), if_pos rfl]
    simp only
    rw [hpast, read_nil, read_nil]
    simp [ReaderState.atEnd]

end Code

/-! ## Literals -/

section Quoted

variable {quote : Char} {start : List Char} {frame : Frame} {holes : List Hole}

theorem read_literalBody (done : List Char) {body rest : List Char} (h : LiteralBody quote body) :
    read (.literal quote done start frame holes) (body ++ rest)
      = read (.literal quote (body.reverse ++ done) start frame holes) rest := by
  induction h generalizing done with
  | nil => rfl
  | escape c hbody ih =>
    rw [List.cons_append, List.cons_append, read_literal_cons, if_pos rfl]
    simp [ih]
  | char hslash hquote hline hbody ih =>
    rw [List.cons_append, read_literal_cons, if_neg hslash, if_neg hquote, if_neg hline, ih]
    simp

theorem read_literal_end (hquote : IsPlainQuote quote) (done rest : List Char) :
    read (.literal quote done start frame holes) (quote :: rest) =
      if frame.extent = .oneUnit then
        .closed (frame.push (.literal quote done.reverse)).code quote rest
      else read (.code (frame.push (.literal quote done.reverse)) holes) rest := by
  rw [read_literal_cons, if_neg hquote.ne_slash, if_pos rfl]

/-- A literal is a lexeme of its own. -/
theorem read_literal (hquote : IsPlainQuote quote) {body : List Char}
    (hbody : LiteralBody quote body) (rest : List Char) :
    read (.code frame holes) ((Lexeme.literal quote body).text ++ rest) =
      if frame.extent = .oneUnit then .closed (frame.push (.literal quote body)).code quote rest
      else read (.code (frame.push (.literal quote body)) holes) rest := by
  simp only [Lexeme.text, List.cons_append, List.append_assoc, List.nil_append]
  rw [read_code_cons, if_neg hquote.ne_backtick, if_pos hquote.isQuote, read_literalBody _ hbody,
    read_literal_end hquote]
  simp

/-- A literal cannot be closed where its line or the text ends, nor by an escaped quote. -/
theorem read_literal_open (hquote : IsPlainQuote quote) (done : List Char) {rest : List Char}
    (h : rest = [] ∨ rest = ['\\'] ∨ rest.head? = some '\n') :
    read (.literal quote done start frame holes) rest = .openQuote start := by
  rcases h with rfl | rfl | h
  · rw [read_nil, ReaderState.atEnd]
  · rw [read_literal_cons, if_pos rfl]
  · obtain ⟨rest, rfl⟩ := List.head?_eq_some_iff.1 h
    have hne : '\n' ≠ quote := by
      intro hline
      subst hline
      exact absurd hquote (by simp [IsPlainQuote])
    rw [read_literal_cons, if_neg (by decide), if_neg hne, if_pos rfl]

/-! ## Templates -/

variable (done : List Part)

theorem read_template_char {c : Char} {rest : List Char} (hslash : c ≠ '\\')
    (htick : c ≠ backtick) (hhole : ¬ (c = '$' ∧ rest.head? = some '\x7b')) :
    read (.template done start frame holes) (c :: rest)
      = read (.template (.char c :: done) start frame holes) rest := by
  rw [read_template_cons, if_neg hslash, if_neg htick]
  split
  · split
    · simp_all
    · rfl
  · rfl

theorem read_template_escape (c : Char) (rest : List Char) :
    read (.template done start frame holes) ('\\' :: c :: rest)
      = read (.template (.char c :: .char '\\' :: done) start frame holes) rest := by
  rw [read_template_cons, if_pos rfl]

theorem read_template_hole (rest : List Char) :
    read (.template done start frame holes) ('$' :: '\x7b' :: rest)
      = read (.code ⟨.bracket 1, []⟩ (⟨done, start, frame⟩ :: holes)) rest := by
  rw [read_template_cons, if_neg (by decide), if_neg (by decide)]
  exact if_pos rfl

theorem read_template_end (rest : List Char) :
    read (.template done start frame holes) (backtick :: rest) =
      if frame.extent = .oneUnit then
        .closed (frame.push (.template done.reverse)).code backtick rest
      else read (.code (frame.push (.template done.reverse)) holes) rest := by
  rw [read_template_cons, if_neg (by decide), if_pos rfl]

/-- A template cannot be closed where the text ends, nor by an escaped backtick. -/
theorem read_template_open {rest : List Char} (h : rest = [] ∨ rest = ['\\']) :
    read (.template done start frame holes) rest = .openQuote start := by
  rcases h with rfl | rfl
  · rw [read_nil, ReaderState.atEnd]
  · rw [read_template_cons, if_pos rfl]

end Quoted

end StyleAudit
