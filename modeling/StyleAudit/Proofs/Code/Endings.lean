import StyleAudit.Proofs.Code.Faithful

/-!
# How a reading ends

Every text is faithful code up to the point where the reading of it ends: at the bracket that ends
the stretch, at the end of the text, or in front of a quoted unit that nothing closes
(`codeSplit`). `read_eq_closed` and `read_eq_openQuote` say from an answer of `read` what the text
looks like.

`Unclosed` is the rule for a quoted unit without an end. A template can be open because of a unit
in one of its holes; then that unit is the one to blame, so the relation carries the innermost one
along.
-/

namespace StyleAudit

/-- A text that starts with a quoted unit nothing closes, and the text from the innermost such
unit on. -/
inductive Unclosed : List Char → List Char → Prop where
  | literal {quote : Char} {body tail : List Char} (hquote : IsPlainQuote quote)
      (hbody : LiteralBody quote body)
      (htail : tail = [] ∨ tail = ['\\'] ∨ tail.head? = some '\n') :
      Unclosed (quote :: (body ++ tail)) (quote :: (body ++ tail))
  | template {parts : List Part} {tail : List Char}
      (hparts : Faithful (.template parts tail.head?)) (htail : tail = [] ∨ tail = ['\\']) :
      Unclosed (backtick :: (partsText parts ++ tail)) (backtick :: (partsText parts ++ tail))
  | openHole {parts : List Part} {code : Code} (hparts : Faithful (.template parts (some '$')))
      (hcode : Faithful (.code code none)) (hholds : (Extent.bracket 1).Holds code) :
      Unclosed (backtick :: (partsText parts ++ '$' :: '\x7b' :: codeText code))
        (backtick :: (partsText parts ++ '$' :: '\x7b' :: codeText code))
  | inHole {parts : List Part} {code : Code} {unit innermost : List Char}
      (hparts : Faithful (.template parts (some '$')))
      (hcode : Faithful (.code code unit.head?)) (hholds : (Extent.bracket 1).Holds code)
      (hunit : Unclosed unit innermost) :
      Unclosed (backtick :: (partsText parts ++ '$' :: '\x7b' :: (codeText code ++ unit))) innermost

/-- Where an unclosed unit stands, the reading ends, whatever is around it. -/
theorem Unclosed.read_eq {unit innermost : List Char} (h : Unclosed unit innermost) (frame : Frame)
    (holes : List Hole) : read (.code frame holes) unit = .openQuote innermost := by
  induction h generalizing frame holes with
  | literal hquote hbody htail =>
    rw [read_code_cons, if_neg hquote.ne_backtick, if_pos hquote.isQuote, read_literalBody _ hbody,
      read_literal_open hquote _ htail]
  | template hparts htail =>
    rw [read_code_cons, if_pos rfl, read_parts hparts, read_template_open _ htail]
  | @openHole parts code hparts hcode hholds =>
    have hpast : ∀ hole : Hole, read (.code ⟨.bracket 1, []⟩ (hole :: holes)) (codeText code)
        = .openQuote hole.start := by
      intro hole
      have h := read_code ⟨.bracket 1, []⟩ (hole :: holes) [] hcode hholds
      rwa [List.append_nil, read_nil] at h
    rw [read_code_cons, if_pos rfl, read_parts hparts, read_template_hole, hpast]
  | inHole hparts hcode hholds _ ih =>
    -- the hole is open where the unit in it stands, so that unit is the one reported
    rw [read_code_cons, if_pos rfl, read_parts hparts, read_template_hole,
      read_code _ _ _ hcode hholds, ih]

/-- The innermost unit stands at the back of the text, is a quoted unit and is unclosed itself. -/
theorem Unclosed.innermost {unit innermost : List Char} (h : Unclosed unit innermost) :
    innermost <:+ unit ∧ Unclosed innermost innermost
      ∧ ∃ quote rest, innermost = quote :: rest ∧ isQuote quote = true := by
  induction h with
  | literal hquote hbody htail =>
    exact ⟨List.suffix_rfl, .literal hquote hbody htail, _, _, rfl, hquote.isQuote⟩
  | template hparts htail =>
    exact ⟨List.suffix_rfl, .template hparts htail, _, _, rfl, isQuote_backtick⟩
  | openHole hparts hcode hholds =>
    exact ⟨List.suffix_rfl, .openHole hparts hcode hholds, _, _, rfl, isQuote_backtick⟩
  | @inHole parts code unit innermost _ _ _ _ ih =>
    refine ⟨ih.1.trans ⟨backtick :: (partsText parts ++ '$' :: '\x7b' :: codeText code), ?_⟩, ih.2⟩
    simp

/-! ## Every text splits -/

/-- How code ends: with the text, at the bracket that ends its stretch, or in front of an
unclosed unit. -/
inductive CodeEnd (extent : Extent) : List Char → Prop where
  | ended : CodeEnd extent []
  | closed {closer : Char} (rest : List Char) (hclose : isCloser closer = true)
      (hextent : extent = .bracket 1) : CodeEnd extent (closer :: rest)
  | unclosed {unit innermost : List Char} (hunit : Unclosed unit innermost) : CodeEnd extent unit

/-- A text that is faithful code up to where the reading ends. -/
def CodeSplit (extent : Extent) (text : List Char) : Prop :=
  ∃ (code : Code) (rest : List Char), text = codeText code ++ rest
    ∧ Faithful (.code code rest.head?) ∧ extent.Holds code ∧ CodeEnd (extent.raise code.rise) rest

/-- How the inside of a template ends: at a backtick, with the text, or in a hole that nothing
closes. -/
inductive TemplateEnd : List Char → Prop where
  | closed (rest : List Char) : TemplateEnd (backtick :: rest)
  | ended {rest : List Char} (hrest : rest = [] ∨ rest = ['\\']) : TemplateEnd rest
  | hole {code : Code} {rest : List Char} (hcode : Faithful (.code code rest.head?))
      (hholds : (Extent.bracket 1).Holds code)
      (hrest : rest = [] ∨ ∃ innermost, Unclosed rest innermost) :
      TemplateEnd ('$' :: '\x7b' :: (codeText code ++ rest))

/-- A text that is faithful parts of a template up to where its reading ends. -/
def TemplateSplit (text : List Char) : Prop :=
  ∃ parts rest, text = partsText parts ++ rest ∧ Faithful (.template parts rest.head?)
    ∧ TemplateEnd rest

/-- A template without a closing backtick is unclosed. -/
theorem TemplateEnd.closed_or_unclosed {parts : List Part} {rest : List Char}
    (hend : TemplateEnd rest) (hparts : Faithful (.template parts rest.head?)) :
    (∃ tail, rest = backtick :: tail)
      ∨ ∃ innermost, Unclosed (backtick :: (partsText parts ++ rest)) innermost := by
  cases hend with
  | closed tail => exact .inl ⟨tail, rfl⟩
  | ended hrest => exact .inr ⟨_, .template hparts hrest⟩
  | hole hcode hholds hrest =>
    rcases hrest with rfl | ⟨innermost, hunit⟩
    · rw [List.append_nil]
      exact .inr ⟨_, .openHole hparts hcode hholds⟩
    · exact .inr ⟨innermost, .inHole hparts hcode hholds hunit⟩

/-- What follows an opening quote is the body of a literal up to the closing quote, or up to where
the literal breaks off. -/
theorem exists_literalBody (quote : Char) (text : List Char) :
    ∃ body rest, text = body ++ rest ∧ LiteralBody quote body
      ∧ (rest = [] ∨ rest = ['\\'] ∨ rest.head? = some '\n' ∨ rest.head? = some quote) := by
  match text with
  | [] => exact ⟨[], [], rfl, .nil, .inl rfl⟩
  | c :: text =>
    by_cases hslash : c = '\\'
    · subst hslash
      cases text with
      | nil => exact ⟨[], ['\\'], rfl, .nil, .inr (.inl rfl)⟩
      | cons c text =>
        obtain ⟨body, rest, rfl, hbody, hrest⟩ := exists_literalBody quote text
        exact ⟨'\\' :: c :: body, rest, rfl, .escape c hbody, hrest⟩
    by_cases hquote : c = quote
    · exact ⟨[], c :: text, rfl, .nil, .inr (.inr (.inr (by simp [hquote])))⟩
    by_cases hline : c = '\n'
    · exact ⟨[], c :: text, rfl, .nil, .inr (.inr (.inl (by simp [hline])))⟩
    obtain ⟨body, rest, rfl, hbody, hrest⟩ := exists_literalBody quote text
    exact ⟨c :: body, rest, rfl, .char hslash hquote hline hbody, hrest⟩
termination_by text.length

/-- The first asterisk and slash of a text, or there is none. -/
theorem exists_blockBody (text : List Char) :
    (∃ body rest, text = body ++ '*' :: '/' :: rest ∧ ¬ ['*', '/'] <:+: body ++ ['*'])
      ∨ ¬ ['*', '/'] <:+: text := by
  induction text with
  | nil => exact .inr (by simp)
  | cons c text ih =>
    by_cases hend : c = '*' ∧ text.head? = some '/'
    · obtain ⟨rfl, hhead⟩ := hend
      obtain ⟨rest, rfl⟩ := List.head?_eq_some_iff.1 hhead
      exact .inl ⟨[], rest, rfl, by decide⟩
    -- the character in front makes no end of comment with what is behind it
    have hcons : ∀ l : List Char, l.head? = text.head? ∨ l.head? = some '*' →
        ¬ ['*', '/'] <:+: l → ¬ ['*', '/'] <:+: c :: l := by
      intro l hl hnot hslice
      rcases List.infix_cons_iff.1 hslice with hprefix | hslice
      · obtain ⟨t, ht⟩ := hprefix
        obtain ⟨rfl, rfl⟩ : '*' = c ∧ '/' :: t = l := by simpa using ht
        rcases hl with hl | hl
        · exact hend ⟨rfl, hl.symm⟩
        · simp at hl
      · exact hnot hslice
    rcases ih with ⟨body, rest, rfl, hbody⟩ | hnone
    · refine .inl ⟨c :: body, rest, rfl, hcons _ ?_ hbody⟩
      cases body <;> simp
    · exact .inr (hcons _ (.inl rfl) hnone)

/-- Two slashes, or a slash and an asterisk, start a comment. -/
theorem exists_comment {c : Char} {text : List Char} (h : OpensComment c text.head?) :
    ∃ comment rest, c :: text = comment ++ rest ∧ IsComment comment rest.head?
      ∧ rest.length < text.length := by
  obtain ⟨rfl, h⟩ := h
  cases text with
  | nil => simp at h
  | cons d text =>
    simp only [List.head?_cons, Option.some.injEq] at h
    rcases h with rfl | rfl
    · refine ⟨'/' :: '/' :: text.takeWhile (· != '\n'), text.dropWhile (· != '\n'), by simp,
        .line ?_ ?_, Nat.lt_succ_of_le (List.dropWhile_sublist _).length_le⟩
      · intro hmem
        have := List.all_eq_true.1 (List.all_takeWhile (p := (· != '\n')) (l := text)) _ hmem
        simp at this
      · have := List.head?_dropWhile_not (· != '\n') text
        cases hhead : (text.dropWhile (· != '\n')).head? <;> simp_all
    · rcases exists_blockBody text with ⟨body, rest, rfl, hbody⟩ | hnone
      · refine ⟨'/' :: '*' :: (body ++ ['*', '/']), rest, by simp, .block _ hbody, ?_⟩
        simp
        omega
      · exact ⟨'/' :: '*' :: text, [], by simp, .openBlock hnone, by simp⟩

section Splits

variable {extent : Extent}

/-- Behind a lexeme the rest of the text splits on its own. -/
theorem CodeSplit.cons (extent : Extent) (lexeme : Lexeme) (text : List Char)
    (hsplit : CodeSplit (extent.raise lexeme.rise) text) (hholds : extent.Holds [lexeme])
    (hfaithful : ∀ {code : Code} {next : Option Char}, (codeText code).head?.or next = text.head? →
      Faithful (.code code next) → Faithful (.code (lexeme :: code) next)) :
    CodeSplit extent (lexeme.text ++ text) := by
  obtain ⟨code, rest, rfl, hcode, hheld, hend⟩ := hsplit
  refine ⟨lexeme :: code, rest, by simp [codeText], hfaithful List.head?_append.symm hcode,
    Extent.holds_cons.2 ⟨hholds, hheld⟩, ?_⟩
  rwa [Code.rise_cons, ← Extent.raise_raise]

/-- A lexeme that is no bracket ends no stretch. -/
theorem Extent.holds_singleton {lexeme : Lexeme} (hextent : extent ≠ .oneUnit)
    (h : ∀ c, lexeme = .char c → isCloser c = true → extent ≠ .bracket 1) :
    extent.Holds [lexeme] := by
  cases extent with
  | wholeText => trivial
  | oneUnit => exact absurd rfl hextent
  | bracket depth =>
    cases lexeme with
    | char c =>
      simp only [Extent.Holds, Code.afterCloser]
      split
      · rfl
      · split
        · next hclose => rw [if_neg fun hdepth => h c rfl hclose (by rw [hdepth])]
        · rfl
    | _ => rfl

theorem codeSplit_unclosed {unit innermost : List Char} (hextent : extent ≠ .oneUnit)
    (h : Unclosed unit innermost) : CodeSplit extent unit := by
  refine ⟨[], unit, rfl, .nil _, ?_, .unclosed h⟩
  cases extent <;> trivial

theorem Extent.raise_ne_oneUnit (hextent : extent ≠ .oneUnit) (change : Int) :
    extent.raise change ≠ .oneUnit := by
  cases extent <;> simp_all [Extent.raise]

/-- Texts shorter than a text split, as code and as the inside of a template. -/
def ShorterSplit (text : List Char) : Prop :=
  ∀ rest : List Char, rest.length < text.length →
    (∀ extent, extent ≠ .oneUnit → CodeSplit extent rest) ∧ TemplateSplit rest

/-- A text that starts with a quote starts with a quoted unit, or that unit is unclosed. -/
def QuotedSplit (quote : Char) (text : List Char) : Prop :=
  (∃ (lexeme : Lexeme) (rest : List Char), text = lexeme.text ++ rest
      ∧ lexeme.quote? = some quote ∧ ∀ next, lexeme.FaithfulBefore next)
    ∨ ∃ innermost, Unclosed text innermost

theorem quotedSplit_of_shorter {c : Char} {text : List Char} (ih : ShorterSplit (c :: text))
    (hquote : isQuote c = true) : QuotedSplit c (c :: text) := by
  by_cases htick : c = backtick
  · subst htick
    obtain ⟨parts, rest, rfl, hparts, hend⟩ := (ih text (by simp)).2
    rcases hend.closed_or_unclosed hparts with ⟨tail, rfl⟩ | hunit
    · exact .inl ⟨.template parts, tail, by simp [Lexeme.text], rfl, fun _ => hparts⟩
    · exact .inr hunit
  · have hplain : IsPlainQuote c := (isQuote_iff.1 hquote).resolve_left htick
    obtain ⟨body, rest, rfl, hbody, hrest⟩ := exists_literalBody c text
    by_cases hhead : rest.head? = some c
    · obtain ⟨tail, rfl⟩ := List.head?_eq_some_iff.1 hhead
      exact .inl ⟨.literal c body, tail, by simp [Lexeme.text], rfl, fun _ => ⟨hplain, hbody⟩⟩
    · exact .inr ⟨_, .literal hplain hbody (by simpa [hhead] using hrest)⟩

theorem lexeme_text_length_pos {lexeme : Lexeme} {quote : Char}
    (h : lexeme.quote? = some quote) : 0 < lexeme.text.length := by
  cases lexeme <;> simp_all [Lexeme.quote?, Lexeme.text]

theorem rise_eq_zero_of_quote? {lexeme : Lexeme} {quote : Char} (h : lexeme.quote? = some quote) :
    lexeme.rise = 0 := by
  cases lexeme <;> simp_all [Lexeme.quote?, Lexeme.rise]

theorem codeSplit_of_shorter {text : List Char} (ih : ShorterSplit text)
    (hextent : extent ≠ .oneUnit) : CodeSplit extent text := by
  cases text with
  | nil =>
    refine ⟨[], [], rfl, .nil _, ?_, .ended⟩
    cases extent <;> trivial
  | cons c text =>
    by_cases hquote : isQuote c = true
    · rcases quotedSplit_of_shorter ih hquote with ⟨lexeme, tail, htext, hlexeme, hfaithful⟩ |
        ⟨innermost, hunit⟩
      · have hpos := lexeme_text_length_pos hlexeme
        have hlength : tail.length < (c :: text).length := by
          rw [htext, List.length_append]
          omega
        have hcons := CodeSplit.cons extent lexeme tail
          (by simpa [rise_eq_zero_of_quote? hlexeme] using (ih tail hlength).1 extent hextent)
          (Extent.holds_singleton hextent (by rintro _ rfl; simp [Lexeme.quote?] at hlexeme))
          fun _ hcode => faithful_cons.2 ⟨hfaithful _, hcode⟩
        rwa [htext]
      · exact codeSplit_unclosed hextent hunit
    -- what opens a comment has one, even if the text ends before the comment does
    by_cases hcomment : OpensComment c text.head?
    · obtain ⟨comment, rest, htext, hcomment, hlength⟩ := exists_comment hcomment
      have hrest := (ih rest (by simp; omega)).1 extent hextent
      have hcons := CodeSplit.cons extent (.comment comment) rest
        (by simpa [Lexeme.rise] using hrest) (Extent.holds_singleton hextent (by simp))
        fun hnext hcode => .comment (by rwa [hnext]) hcode
      rwa [Lexeme.text, ← htext] at hcons
    by_cases hclose : isCloser c = true ∧ extent = .bracket 1
    · obtain ⟨hclose, rfl⟩ := hclose
      exact ⟨[], c :: text, rfl, .nil _, rfl, .closed text hclose rfl⟩
    -- any other character stands for itself
    have hraise := (ih text (by simp)).1 _ (Extent.raise_ne_oneUnit hextent (Lexeme.rise (.char c)))
    have hcons := CodeSplit.cons extent (.char c) text hraise
      (Extent.holds_singleton hextent (by rintro _ ⟨⟩ hc hextent; exact hclose ⟨hc, hextent⟩))
      fun hnext hcode => .char (by simpa using hquote) (by rwa [hnext]) hcode
    simpa [Lexeme.text] using hcons

theorem templateSplit_of_shorter {text : List Char} (ih : ShorterSplit text) :
    TemplateSplit text := by
  cases text with
  | nil => exact ⟨[], [], rfl, .noParts _, .ended (.inl rfl)⟩
  | cons c text =>
    by_cases hslash : c = '\\'
    · subst hslash
      cases text with
      | nil => exact ⟨[], ['\\'], rfl, .noParts _, .ended (.inr rfl)⟩
      | cons c text =>
        obtain ⟨parts, rest, rfl, hparts, hend⟩ :=
          (ih text (by simp only [List.length_cons]; omega)).2
        exact ⟨.char '\\' :: .char c :: parts, rest, rfl, .escape c hparts, hend⟩
    by_cases htick : c = backtick
    · subst htick
      exact ⟨[], backtick :: text, rfl, .noParts _, .closed text⟩
    by_cases hhole : c = '$' ∧ text.head? = some '\x7b'
    · obtain ⟨rfl, hhead⟩ := hhole
      obtain ⟨text, rfl⟩ := List.head?_eq_some_iff.1 hhead
      obtain ⟨code, rest, rfl, hcode, hholds, hend⟩ :=
        (ih text (by simp only [List.length_cons]; omega)).1 (.bracket 1) (by simp)
      have hopen : rest = [] ∨ (∃ innermost, Unclosed rest innermost) →
          TemplateSplit ('$' :: '\x7b' :: (codeText code ++ rest)) :=
        fun hrest => ⟨[], _, rfl, .noParts _, .hole hcode hholds hrest⟩
      cases hend with
      | ended => exact hopen (.inl rfl)
      | unclosed hunit => exact hopen (.inr ⟨_, hunit⟩)
      | @closed closer rest hclose hextent =>
        have hrise : code.rise = 0 := by
          have hone : 1 + code.rise = 1 := by simpa [Extent.raise] using hextent
          omega
        obtain ⟨parts, rest, rfl, hparts, hend⟩ := (ih rest (by simp; omega)).2
        exact ⟨.hole code closer :: parts, rest, by simp [partsText, Part.text],
          .hole hclose hholds hrise hcode hparts, hend⟩
    obtain ⟨parts, rest, rfl, hparts, hend⟩ := (ih text (by simp)).2
    exact ⟨.char c :: parts, rest, rfl, .part hslash htick (by rwa [← List.head?_append]) hparts,
      hend⟩

theorem shorterSplit (text : List Char) : ShorterSplit text := by
  -- units of any length are taken off the front, so the induction is on the length
  induction hlength : text.length using Nat.strongRecOn generalizing text with
  | ind n ih =>
    subst hlength
    intro rest hrest
    have hshorter := ih rest.length hrest rest rfl
    exact ⟨fun _ hextent => codeSplit_of_shorter hshorter hextent,
      templateSplit_of_shorter hshorter⟩

/-- Every text is faithful code up to where the reading of it ends. -/
theorem codeSplit (hextent : extent ≠ .oneUnit) (text : List Char) : CodeSplit extent text :=
  codeSplit_of_shorter (shorterSplit text) hextent

theorem quotedSplit {c : Char} {text : List Char} (hquote : isQuote c = true) :
    QuotedSplit c (c :: text) :=
  quotedSplit_of_shorter (shorterSplit _) hquote

end Splits

/-! ## What an answer says about the text -/

section Answers

variable {extent : Extent} {text : List Char}

/-- The three ways a reading ends. -/
theorem read_cases (hextent : extent ≠ .oneUnit) (text : List Char) :
    ∃ (code : Code) (rest : List Char), text = codeText code ++ rest
      ∧ Faithful (.code code rest.head?) ∧ extent.Holds code
      ∧ ((rest = [] ∧ read (.code ⟨extent, []⟩ []) text = .ended code)
        ∨ (∃ closer behind, rest = closer :: behind ∧ isCloser closer = true
          ∧ extent.raise code.rise = .bracket 1
          ∧ read (.code ⟨extent, []⟩ []) text = .closed code closer behind)
        ∨ ∃ innermost, Unclosed rest innermost
          ∧ read (.code ⟨extent, []⟩ []) text = .openQuote innermost) := by
  obtain ⟨code, rest, rfl, hcode, hholds, hend⟩ := codeSplit hextent text
  refine ⟨code, rest, rfl, hcode, hholds, ?_⟩
  rw [read_code _ _ _ hcode hholds]
  cases hend with
  | ended =>
    refine .inl ⟨rfl, ?_⟩
    rw [read_nil]
    simp [ReaderState.atEnd, endOfText, Frame.past, Frame.code]
  | @closed closer behind hclose hraise =>
    refine .inr (.inl ⟨closer, behind, rfl, hclose, hraise, ?_⟩)
    rw [read_closer hclose hraise]
    simp [Frame.past, Frame.code]
  | unclosed hunit => exact .inr (.inr ⟨_, hunit, hunit.read_eq _ _⟩)

theorem read_eq_closed {code : Code} {closer : Char} {behind : List Char}
    (hextent : extent ≠ .oneUnit)
    (h : read (.code ⟨extent, []⟩ []) text = .closed code closer behind) :
    text = codeText code ++ closer :: behind ∧ Faithful (.code code (some closer))
      ∧ extent.Holds code ∧ extent.raise code.rise = .bracket 1 ∧ isCloser closer = true := by
  obtain ⟨code', rest, htext, hcode, hholds, ⟨-, hread⟩ | ⟨closer', behind', rfl, hclose, hraise,
    hread⟩ | ⟨innermost, -, hread⟩⟩ := read_cases hextent text
  · simp [hread] at h
  · rw [hread] at h
    cases h
    exact ⟨htext, hcode, hholds, hraise, hclose⟩
  · simp [hread] at h

theorem read_eq_openQuote {innermost : List Char} (hextent : extent ≠ .oneUnit)
    (h : read (.code ⟨extent, []⟩ []) text = .openQuote innermost) :
    ∃ (code : Code) (unit : List Char), text = codeText code ++ unit
      ∧ Faithful (.code code unit.head?) ∧ extent.Holds code ∧ Unclosed unit innermost := by
  obtain ⟨code, rest, htext, hcode, hholds, ⟨-, hread⟩ | ⟨closer', behind', -, -, -, hread⟩
    | ⟨innermost', hunit, hread⟩⟩ := read_cases hextent text
  · simp [hread] at h
  · simp [hread] at h
  · rw [hread] at h
    cases h
    exact ⟨code, rest, htext, hcode, hholds, hunit⟩

end Answers

end StyleAudit
