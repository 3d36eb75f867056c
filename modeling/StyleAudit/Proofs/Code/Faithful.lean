import StyleAudit.Proofs.Code.Units

/-!
# Faithful code

Units are *faithful* if their own text reads back as them. Which units are depends on the one
character behind the text: a slash in front of a slash is no unit of its own, and a comment of two
slashes runs on up to a line feed. `Faithful` is the rule, unit by unit, and `read_code` and
`read_parts` are what it is for: the machine passes over the text of faithful units in one step
and has them in its frame afterwards.
-/

namespace StyleAudit

/-- A stretch of source text that has been taken apart, and the character behind it; `none` is
the end of the text. -/
inductive Stretch where
  | code (code : Code) (next : Option Char)
  | template (parts : List Part) (next : Option Char)

/-- The units of a stretch are the ones its text reads back as. -/
inductive Faithful : Stretch → Prop where
  | nil (next : Option Char) : Faithful (.code [] next)
  | char {c : Char} {code : Code} {next : Option Char} (hquote : isQuote c = false)
      (hcomment : ¬ OpensComment c ((codeText code).head?.or next))
      (hcode : Faithful (.code code next)) : Faithful (.code (.char c :: code) next)
  | comment {text : List Char} {code : Code} {next : Option Char}
      (hcomment : IsComment text ((codeText code).head?.or next))
      (hcode : Faithful (.code code next)) : Faithful (.code (.comment text :: code) next)
  | literal {quote : Char} {body : List Char} {code : Code} {next : Option Char}
      (hquote : IsPlainQuote quote) (hbody : LiteralBody quote body)
      (hcode : Faithful (.code code next)) : Faithful (.code (.literal quote body :: code) next)
  | template {parts : List Part} {code : Code} {next : Option Char}
      (hparts : Faithful (.template parts (some backtick)))
      (hcode : Faithful (.code code next)) : Faithful (.code (.template parts :: code) next)
  | noParts (next : Option Char) : Faithful (.template [] next)
  | escape (c : Char) {parts : List Part} {next : Option Char}
      (hparts : Faithful (.template parts next)) :
      Faithful (.template (.char '\\' :: .char c :: parts) next)
  | part {c : Char} {parts : List Part} {next : Option Char} (hslash : c ≠ '\\')
      (htick : c ≠ backtick) (hhole : ¬ (c = '$' ∧ (partsText parts).head?.or next = some '\x7b'))
      (hparts : Faithful (.template parts next)) : Faithful (.template (.char c :: parts) next)
  | hole {code : Code} {closer : Char} {parts : List Part} {next : Option Char}
      (hclose : isCloser closer = true) (hholds : (Extent.bracket 1).Holds code)
      (hrise : code.rise = 0) (hcode : Faithful (.code code (some closer)))
      (hparts : Faithful (.template parts next)) :
      Faithful (.template (.hole code closer :: parts) next)

/-- The machine passes over the text of a stretch and keeps its units. -/
def Stretch.Passes : Stretch → Prop
  | .code units next => ∀ (frame : Frame) (holes : List Hole) (rest : List Char),
      rest.head? = next → frame.extent.Holds units →
      read (.code frame holes) (codeText units ++ rest) = read (.code (frame.past units) holes) rest
  | .template parts next => ∀ (done : List Part) (start : List Char) (frame : Frame)
      (holes : List Hole) (rest : List Char), rest.head? = next →
      read (.template done start frame holes) (partsText parts ++ rest)
        = read (.template (parts.reverse ++ done) start frame holes) rest

/-- One more lexeme in front: it is enough to pass over its own text. -/
theorem passes_cons {lexeme : Lexeme} {code : Code} {next : Option Char}
    (hcode : (Stretch.code code next).Passes)
    (hlexeme : ∀ (frame : Frame) (holes : List Hole) (rest : List Char), rest.head? = next →
      frame.extent.Holds [lexeme] →
      read (.code frame holes) (lexeme.text ++ (codeText code ++ rest))
        = read (.code (frame.past [lexeme]) holes) (codeText code ++ rest)) :
    (Stretch.code (lexeme :: code) next).Passes := by
  intro frame holes rest hnext hholds
  obtain ⟨hfirst, hrest⟩ := Extent.holds_cons.1 hholds
  have hpast : (frame.past [lexeme]).extent.Holds code := by
    simpa [Frame.past] using hrest
  rw [codeText, List.append_assoc, hlexeme frame holes rest hnext hfirst,
    hcode (frame.past [lexeme]) holes rest hnext hpast, ← Frame.past_cons]

/-- A template is a lexeme of its own if the machine passes over its parts. -/
theorem Stretch.Passes.read_template {parts : List Part} {frame : Frame} {holes : List Hole}
    (hparts : (Stretch.template parts (some backtick)).Passes) (rest : List Char) :
    read (.code frame holes) ((Lexeme.template parts).text ++ rest) =
      if frame.extent = .oneUnit then .closed (frame.push (.template parts)).code backtick rest
      else read (.code (frame.push (.template parts)) holes) rest := by
  simp only [Lexeme.text, List.cons_append, List.append_assoc, List.nil_append]
  rw [read_code_cons, if_pos rfl, hparts _ _ _ _ (backtick :: rest) rfl, read_template_end]
  simp

theorem Faithful.passes {stretch : Stretch} (h : Faithful stretch) : stretch.Passes := by
  induction h with
  | nil next =>
    intro frame holes rest _ _
    simp [codeText]
  | char hquote hcomment _ ih =>
    apply passes_cons ih
    intro frame holes rest hnext hholds
    rw [Lexeme.text, List.singleton_append]
    exact read_char hquote (by rwa [List.head?_append, hnext]) hholds
  | comment hcomment _ ih =>
    apply passes_cons ih
    intro frame holes rest hnext hholds
    rw [Lexeme.text]
    exact read_comment (by rwa [List.head?_append, hnext])
  | @literal quote body code next hquote hbody _ ih =>
    -- no stretch of one unit goes on behind it, so the code around goes on
    apply passes_cons ih
    intro frame holes rest hnext hholds
    rw [read_literal hquote hbody, if_neg hholds.ne_oneUnit,
      push_of_rise_eq_zero (.literal quote body) rfl]
  | @template parts code next _ _ ihparts ih =>
    apply passes_cons ih
    intro frame holes rest hnext hholds
    rw [ihparts.read_template, if_neg hholds.ne_oneUnit,
      push_of_rise_eq_zero (.template parts) rfl]
  | noParts next =>
    intro done start frame holes rest _
    simp [partsText]
  | escape c _ ih =>
    intro done start frame holes rest hnext
    simp only [partsText, Part.text, List.cons_append, List.nil_append]
    rw [read_template_escape, ih _ _ _ _ _ hnext]
    simp
  | part hslash htick hhole _ ih =>
    intro done start frame holes rest hnext
    simp only [partsText, Part.text, List.cons_append, List.nil_append]
    rw [read_template_char _ hslash htick (by rwa [List.head?_append, hnext]),
      ih _ _ _ _ _ hnext]
    simp
  | @hole code closer parts next hclose hholds hrise _ _ ihcode ih =>
    intro done start frame holes rest hnext
    simp only [partsText, Part.text, List.cons_append, List.append_assoc, List.nil_append]
    -- the code of the hole is read in a frame of its own, up to the bracket that closes the hole
    rw [read_template_hole, ihcode _ _ _ rfl hholds,
      read_closer hclose (by simp [Frame.past, Extent.raise, hrise])]
    simp only
    rw [ih _ _ _ _ _ hnext]
    simp [Frame.past, Frame.code]

theorem read_code {code : Code} (frame : Frame) (holes : List Hole) (rest : List Char)
    (h : Faithful (.code code rest.head?)) (hholds : frame.extent.Holds code) :
    read (.code frame holes) (codeText code ++ rest) = read (.code (frame.past code) holes) rest :=
  h.passes frame holes rest rfl hholds

theorem read_parts {parts done : List Part} {start : List Char} {frame : Frame} {holes : List Hole}
    {rest : List Char} (h : Faithful (.template parts rest.head?)) :
    read (.template done start frame holes) (partsText parts ++ rest)
      = read (.template (parts.reverse ++ done) start frame holes) rest :=
  h.passes done start frame holes rest rfl

/-! ## One lexeme at a time -/

/-- The condition on a single lexeme in front of the character `next`. -/
def Lexeme.FaithfulBefore : Lexeme → Option Char → Prop
  | .char c, next => isQuote c = false ∧ ¬ OpensComment c next
  | .comment text, next => IsComment text next
  | .literal quote body, _ => IsPlainQuote quote ∧ LiteralBody quote body
  | .template parts, _ => Faithful (.template parts (some backtick))

theorem Lexeme.opener_faithful {c : Char} (hopen : isOpener c = true) (next : Option Char) :
    Lexeme.FaithfulBefore (.char c) next := by
  refine ⟨not_isQuote_of_isOpener hopen, ?_⟩
  intro hopens
  exact ne_slash_of_isOpener hopen hopens.1

theorem Lexeme.closer_faithful {c : Char} (hclose : isCloser c = true) (next : Option Char) :
    Lexeme.FaithfulBefore (.char c) next := by
  refine ⟨not_isQuote_of_isCloser hclose, ?_⟩
  intro hopens
  exact ne_slash_of_isCloser hclose hopens.1

theorem faithful_cons {lexeme : Lexeme} {code : Code} {next : Option Char} :
    Faithful (.code (lexeme :: code) next)
      ↔ lexeme.FaithfulBefore ((codeText code).head?.or next) ∧ Faithful (.code code next) := by
  constructor
  · intro h
    cases h with
    | char hquote hcomment hcode => exact ⟨⟨hquote, hcomment⟩, hcode⟩
    | comment hcomment hcode => exact ⟨hcomment, hcode⟩
    | literal hquote hbody hcode => exact ⟨⟨hquote, hbody⟩, hcode⟩
    | template hparts hcode => exact ⟨hparts, hcode⟩
  · rintro ⟨hlexeme, hcode⟩
    cases lexeme with
    | char c => exact .char hlexeme.1 hlexeme.2 hcode
    | comment text => exact .comment hlexeme hcode
    | literal quote body => exact .literal hlexeme.1 hlexeme.2 hcode
    | template parts => exact .template hlexeme hcode

/-- Code in two parts is faithful if both parts are, the first one in front of the second. -/
theorem faithful_append {a b : Code} {next : Option Char} :
    Faithful (.code (a ++ b) next)
      ↔ Faithful (.code a ((codeText b).head?.or next)) ∧ Faithful (.code b next) := by
  induction a with
  | nil => exact ⟨fun h => ⟨.nil _, h⟩, fun h => h.2⟩
  | cons lexeme a ih =>
    rw [List.cons_append, faithful_cons, faithful_cons, ih, codeText_append, List.head?_append,
      Option.or_assoc, and_assoc]

/-- The end of the text is the mildest thing that can follow. -/
theorem Lexeme.FaithfulBefore.at_end {lexeme : Lexeme} {next : Option Char}
    (h : lexeme.FaithfulBefore next) : lexeme.FaithfulBefore none := by
  cases lexeme with
  | char c => exact ⟨h.1, by simp [OpensComment]⟩
  | comment text =>
    cases h with
    | line hbody _ => exact .line hbody (.inl rfl)
    | block _ hbody => exact .block _ hbody
    | openBlock hbody => exact .openBlock hbody
  | literal quote body => exact h
  | template parts => exact h

theorem Faithful.at_end {code : Code} {next : Option Char} (h : Faithful (.code code next)) :
    Faithful (.code code none) := by
  induction code with
  | nil => exact .nil _
  | cons lexeme code ih =>
    obtain ⟨hlexeme, hcode⟩ := faithful_cons.1 h
    refine faithful_cons.2 ⟨?_, ih hcode⟩
    cases hhead : (codeText code).head? with
    | none => exact hlexeme.at_end
    | some c => rwa [hhead] at hlexeme

/-- The quote that a lexeme starts and ends with. -/
def Lexeme.quote? : Lexeme → Option Char
  | .literal quote _ => some quote
  | .template _ => some backtick
  | _ => none

theorem read_quoted {lexeme : Lexeme} {quote : Char} {next : Option Char} {frame : Frame}
    {holes : List Hole} (hquote : lexeme.quote? = some quote) (h : lexeme.FaithfulBefore next)
    (rest : List Char) :
    read (.code frame holes) (lexeme.text ++ rest) =
      if frame.extent = .oneUnit then .closed (frame.push lexeme).code quote rest
      else read (.code (frame.push lexeme) holes) rest := by
  cases lexeme with
  | char c => simp [Lexeme.quote?] at hquote
  | comment text => simp [Lexeme.quote?] at hquote
  | literal quote body =>
    cases hquote
    exact read_literal h.1 h.2 rest
  | template parts =>
    cases hquote
    exact (Faithful.passes h).read_template rest

/-- The text of faithful code reads back as the code. -/
theorem Faithful.ofText?_text {code : Code} (h : Faithful (.code code none)) :
    Code.ofText? code.text = .ok code := by
  have hread := read_code ⟨.wholeText, []⟩ [] [] h trivial
  rw [List.append_nil, read_nil] at hread
  rw [Code.ofText?, hread]
  simp [ReaderState.atEnd, endOfText, Frame.past, Frame.code]

/-! ## Code in brackets -/

/-- Code between an opening bracket and the bracket that closes it. -/
structure Enclosed (code : Code) (closer : Char) : Prop where
  isCloser : isCloser closer = true
  holds : (Extent.bracket 1).Holds code
  rise : code.rise = 0
  faithful : Faithful (.code code (some closer))

/-- A hole of a faithful template is enclosed code. -/
theorem enclosed_of_hole {parts : List Part} {next : Option Char} {code : Code} {closer : Char}
    (h : Faithful (.template parts next)) (hmem : .hole code closer ∈ parts) :
    Enclosed code closer := by
  generalize hstretch : Stretch.template parts next = stretch at h
  induction h generalizing parts next with
  | noParts => cases hstretch; simp at hmem
  | escape c _ ih => cases hstretch; exact ih (by simpa using hmem) rfl
  | part _ _ _ _ ih => cases hstretch; exact ih (by simpa using hmem) rfl
  | hole hclose hholds hrise hcode _ _ ih =>
    cases hstretch
    rcases List.mem_cons.1 hmem with heq | hmem
    · cases heq
      exact ⟨hclose, hholds, hrise, hcode⟩
    · exact ih hmem rfl
  | _ => cases hstretch

/-- Behind an opening bracket, enclosed code is read up to its closing bracket. -/
theorem Enclosed.read_eq {code : Code} {closer : Char} (h : Enclosed code closer)
    (behind : List Char) :
    read (.code ⟨.bracket 1, []⟩ []) (codeText code ++ closer :: behind)
      = .closed code closer behind := by
  rw [read_code _ _ (closer :: behind) h.faithful h.holds, read_closer h.isCloser]
  · simp [Frame.past, Frame.code]
  · simp [Frame.past, Extent.raise, h.rise]

/-- A group is read from its opening bracket to its closing one. -/
theorem read_group {code : Code} {opener closer : Char} (hopen : isOpener opener = true)
    (h : Enclosed code closer) (behind : List Char) :
    read (.code ⟨.bracket 0, []⟩ []) (opener :: (codeText code ++ closer :: behind))
      = .closed (.char opener :: code) closer behind := by
  have hone : Lexeme.rise (.char opener) = 1 := Lexeme.rise_of_isOpener hopen
  have hfaithful : Faithful (.code (.char opener :: code) (some closer)) :=
    faithful_cons.2 ⟨Lexeme.opener_faithful hopen _, h.faithful⟩
  have hholds : (Extent.bracket 0).Holds (.char opener :: code) := by
    rw [Extent.holds_cons, hone]
    exact ⟨Extent.bracket_holds_singleton_iff.2 fun _ => by decide, h.holds⟩
  have hread := read_code ⟨.bracket 0, []⟩ [] (closer :: behind) hfaithful hholds
  rw [codeText, Lexeme.text, List.singleton_append, List.cons_append] at hread
  rw [hread, read_closer h.isCloser]
  · simp [Frame.past, Frame.code]
  · simp [Frame.past, Extent.raise, hone, h.rise]

end StyleAudit
