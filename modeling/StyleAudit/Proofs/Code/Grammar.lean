import Mathlib
import StyleAudit.Proofs.Code.Endings

/-!
# The grammar of brackets and quotes

What `closingBracket?` and `closingQuote` accept, said as a grammar. A *group* is an opening
bracket, items and a closing bracket of any kind; a *quoted* text is a literal or a template; a
template has holes, and a hole is a dollar sign and a group. Items are groups, quoted texts,
comments and single characters.

`closing_iff_derives` is the main statement: the position a scan returns is the one where the
grammar's phrase ends, so there is at most one, and a scan that returns none has met no phrase.
The way there goes through faithful code: a phrase is the text of faithful units with its brackets
balanced (`Derives.spelled`), and the other way round (`Enclosed.derives`, `derives_quoted`).
-/

namespace StyleAudit

/-- What the grammar derives. -/
inductive Phrase where
  /-- Brackets and what stands between them. -/
  | group
  /-- A group without its opening bracket. -/
  | groupRest
  /-- A text between two copies of a quote. -/
  | quoted (quote : Char)
  /-- A template without its opening backtick. -/
  | templateRest

/-- The grammar. -/
inductive Derives : Phrase → List Char → Prop where
  | group {opener : Char} {rest : List Char} (hopen : isOpener opener = true)
      (hrest : Derives .groupRest rest) : Derives .group (opener :: rest)
  | closer {closer : Char} (hclose : isCloser closer = true) : Derives .groupRest [closer]
  | groupItem {item rest : List Char} (hitem : Derives .group item)
      (hrest : Derives .groupRest rest) : Derives .groupRest (item ++ rest)
  | quotedItem {quote : Char} {item rest : List Char} (hitem : Derives (.quoted quote) item)
      (hrest : Derives .groupRest rest) : Derives .groupRest (item ++ rest)
  /-- Two slashes start a comment up to the next line feed, which is not part of it. -/
  | lineComment {body rest : List Char} (hbody : '\n' ∉ body)
      (hrest : Derives .groupRest ('\n' :: rest)) :
      Derives .groupRest ('/' :: '/' :: (body ++ '\n' :: rest))
  /-- A slash and an asterisk start a comment up to the first asterisk and slash behind them. -/
  | blockComment {body rest : List Char} (hbody : ¬ ['*', '/'] <:+: body ++ ['*'])
      (hrest : Derives .groupRest rest) :
      Derives .groupRest ('/' :: '*' :: (body ++ '*' :: '/' :: rest))
  | charItem {c : Char} {rest : List Char} (hquote : isQuote c = false)
      (hopen : isOpener c = false) (hclose : isCloser c = false)
      (hcomment : ¬ OpensComment c rest.head?) (hrest : Derives .groupRest rest) :
      Derives .groupRest (c :: rest)
  | literal {quote : Char} {body : List Char} (hquote : IsPlainQuote quote)
      (hbody : LiteralBody quote body) : Derives (.quoted quote) (quote :: (body ++ [quote]))
  | template {rest : List Char} (hrest : Derives .templateRest rest) :
      Derives (.quoted backtick) (backtick :: rest)
  | backtick : Derives .templateRest [backtick]
  | escape (c : Char) {rest : List Char} (hrest : Derives .templateRest rest) :
      Derives .templateRest ('\\' :: c :: rest)
  /-- A hole: its brace starts a group. -/
  | hole {group rest : List Char} (hgroup : Derives .group ('\x7b' :: group))
      (hrest : Derives .templateRest rest) :
      Derives .templateRest ('$' :: '\x7b' :: (group ++ rest))
  | templateChar {c : Char} {rest : List Char} (htick : c ≠ StyleAudit.backtick) (hslash : c ≠ '\\')
      (hhole : ¬ (c = '$' ∧ rest.head? = some '\x7b')) (hrest : Derives .templateRest rest) :
      Derives .templateRest (c :: rest)

/-! ## Phrases are faithful units -/

/-- A phrase is the text of units that read back as themselves. -/
def Phrase.Spelled : Phrase → List Char → Prop
  | .group, text => ∃ opener code closer, text = opener :: (codeText code ++ [closer])
      ∧ isOpener opener = true ∧ Enclosed code closer
  | .groupRest, text => ∃ code closer, text = codeText code ++ [closer] ∧ Enclosed code closer
  | .quoted quote, text => ∃ lexeme : Lexeme, text = lexeme.text ∧ lexeme.quote? = some quote
      ∧ ∀ next, lexeme.FaithfulBefore next
  | .templateRest, text => ∃ parts, text = partsText parts ++ [backtick]
      ∧ Faithful (.template parts (some backtick))

theorem Enclosed.holds_within {code : Code} {closer : Char} (h : Enclosed code closer) :
    (Extent.bracket 2).Holds code :=
  Extent.holds_of_deeper (by decide) h.holds

/-- A lexeme in front of enclosed code. -/
theorem Enclosed.cons {lexeme : Lexeme} {code : Code} {closer : Char} (h : Enclosed code closer)
    (hrise : lexeme.rise = 0)
    (hlexeme : lexeme.FaithfulBefore ((codeText code).head?.or (some closer))) :
    Enclosed (lexeme :: code) closer where
  isCloser := h.isCloser
  holds := by
    refine Extent.holds_cons.2 ⟨Extent.holds_singleton (by simp) ?_, by simpa [hrise] using h.holds⟩
    rintro c rfl hclose
    simp [Lexeme.rise_of_isCloser hclose] at hrise
  rise := by rw [Code.rise_cons, hrise, h.rise, Int.zero_add]
  faithful := faithful_cons.2 ⟨hlexeme, h.faithful⟩

/-- A group in front of enclosed code. -/
theorem Enclosed.group_append {opener closer closer' : Char} {a b : Code}
    (hopen : isOpener opener = true) (ha : Enclosed a closer) (hb : Enclosed b closer') :
    Enclosed (.char opener :: (a ++ .char closer :: b)) closer' where
  isCloser := hb.isCloser
  holds := by
    rw [Extent.holds_cons, Extent.holds_append, @Extent.holds_cons _ _ b,
      Lexeme.rise_of_isOpener hopen, Lexeme.rise_of_isCloser ha.isCloser]
    simp only [Extent.raise, ha.rise]
    refine ⟨?_, ha.holds_within, ?_, hb.holds⟩
    · simp [Extent.Holds, Code.afterCloser, hopen]
    · simp [Extent.Holds, Code.afterCloser, ha.isCloser, not_isOpener_of_isCloser ha.isCloser]
  rise := by
    simp [Lexeme.rise_of_isOpener hopen, Lexeme.rise_of_isCloser ha.isCloser, ha.rise, hb.rise]
  faithful := by
    rw [faithful_cons, faithful_append, faithful_cons]
    exact ⟨Lexeme.opener_faithful hopen _, ha.faithful,
      Lexeme.closer_faithful ha.isCloser _, hb.faithful⟩

/-- What the grammar derives is the text of faithful units. -/
theorem Derives.spelled {phrase : Phrase} {text : List Char} (h : Derives phrase text) :
    phrase.Spelled text := by
  induction h with
  | group hopen _ ih =>
    obtain ⟨code, closer, rfl, hcode⟩ := ih
    exact ⟨_, code, closer, rfl, hopen, hcode⟩
  | @closer closer hclose =>
    exact ⟨[], closer, rfl, hclose, rfl, rfl, .nil _⟩
  | groupItem _ _ ihitem ih =>
    obtain ⟨opener, a, closer, rfl, hopen, ha⟩ := ihitem
    obtain ⟨b, closer', rfl, hb⟩ := ih
    refine ⟨.char opener :: (a ++ .char closer :: b), closer', ?_, ha.group_append hopen hb⟩
    simp [codeText, codeText_append, Lexeme.text]
  | quotedItem _ _ ihitem ih =>
    obtain ⟨lexeme, rfl, hquote, hlexeme⟩ := ihitem
    obtain ⟨code, closer, rfl, hcode⟩ := ih
    refine ⟨lexeme :: code, closer, by simp [codeText], ?_⟩
    exact hcode.cons (rise_eq_zero_of_quote? hquote) (hlexeme _)
  | @lineComment body rest hbody _ ih =>
    obtain ⟨code, closer, htext, hcode⟩ := ih
    refine ⟨.comment ('/' :: '/' :: body) :: code, closer, ?_, hcode.cons rfl (.line hbody ?_)⟩
    · simp [codeText, Lexeme.text, htext]
    · right
      simpa [List.head?_append] using (congrArg List.head? htext).symm
  | @blockComment body rest hbody _ ih =>
    obtain ⟨code, closer, rfl, hcode⟩ := ih
    refine ⟨.comment ('/' :: '*' :: (body ++ ['*', '/'])) :: code, closer, ?_,
      hcode.cons rfl (.block _ hbody)⟩
    simp [codeText, Lexeme.text]
  | @charItem c rest hquote hopen hclose hcomment _ ih =>
    obtain ⟨code, closer, rfl, hcode⟩ := ih
    refine ⟨.char c :: code, closer, by simp [codeText, Lexeme.text],
      hcode.cons (by simp [Lexeme.rise, hopen, hclose]) ⟨hquote, ?_⟩⟩
    rwa [List.head?_append] at hcomment
  | @literal quote body hquote hbody =>
    exact ⟨.literal quote body, rfl, rfl, fun _ => ⟨hquote, hbody⟩⟩
  | template _ ih =>
    obtain ⟨parts, rfl, hparts⟩ := ih
    exact ⟨.template parts, rfl, rfl, fun _ => hparts⟩
  | backtick => exact ⟨[], rfl, .noParts _⟩
  | escape c _ ih =>
    obtain ⟨parts, rfl, hparts⟩ := ih
    exact ⟨.char '\\' :: .char c :: parts, rfl, .escape c hparts⟩
  | hole _ _ ihgroup ih =>
    obtain ⟨opener, code, closer, htext, -, hcode⟩ := ihgroup
    obtain ⟨parts, rfl, hparts⟩ := ih
    obtain ⟨rfl, rfl⟩ := List.cons.inj htext
    refine ⟨.hole code closer :: parts, by simp [partsText, Part.text], ?_⟩
    exact .hole hcode.isCloser hcode.holds hcode.rise hcode.faithful hparts
  | @templateChar c rest htick hslash hhole _ ih =>
    obtain ⟨parts, rfl, hparts⟩ := ih
    refine ⟨.char c :: parts, rfl, .part hslash htick ?_ hparts⟩
    rwa [List.head?_append] at hhole

/-! ## Faithful units are phrases

Code counts its brackets, the grammar nests them. `Tails` is the step between: with several
brackets open, the text behind is as many rests of groups, one after the other. -/

/-- The rests of a number of groups in a row. -/
inductive Tails : Nat → List Char → Prop where
  | one {text : List Char} (h : Derives .groupRest text) : Tails 1 text
  | more {n : Nat} {text rest : List Char} (h : Derives .groupRest text) (hrest : Tails n rest) :
      Tails (n + 1) (text ++ rest)

theorem Derives.groupRest_ne_nil {text : List Char} (h : Derives .groupRest text) : text ≠ [] := by
  obtain ⟨code, closer, rfl, -⟩ := h.spelled
  simp

theorem Tails.of_one {text : List Char} (h : Tails 1 text) : Derives .groupRest text := by
  cases h with
  | one h => exact h
  | more _ hrest => cases hrest

theorem Derives.comment_append {comment rest : List Char} (h : Derives .groupRest rest)
    (hcomment : IsComment comment rest.head?) : Derives .groupRest (comment ++ rest) := by
  obtain ⟨c, rest, rfl⟩ := List.exists_cons_of_ne_nil h.groupRest_ne_nil
  generalize hnext : (c :: rest).head? = next at hcomment
  cases hcomment with
  | @line body _ hbody hend =>
    obtain rfl : c = '\n' := by
      simpa [← hnext] using hend
    simpa using Derives.lineComment hbody h
  | @block body _ hbody => simpa using Derives.blockComment hbody h
  | openBlock => simp at hnext

/-- An item in front of the first rest is an item of that group. -/
theorem Tails.append_left {n : Nat} {item text : List Char} (h : Tails n text)
    (hitem : ∀ rest, rest.head? = text.head? → Derives .groupRest rest →
      Derives .groupRest (item ++ rest)) : Tails n (item ++ text) := by
  cases h with
  | one h => exact .one (hitem text rfl h)
  | @more n first rest h hrest =>
    rw [← List.append_assoc]
    refine .more (hitem first ?_ h) hrest
    rw [List.head?_append, List.head?_eq_some_head h.groupRest_ne_nil, Option.some_or]

/-- An opening bracket turns the first rest into a group of the second. -/
theorem Tails.opener {n : Nat} {c : Char} {text : List Char} (hopen : isOpener c = true)
    (hn : 1 ≤ n) (h : Tails (n + 1) text) : Tails n (c :: text) := by
  cases h with
  | one h => omega
  | @more n first rest h hrest =>
    rw [← List.cons_append]
    exact hrest.append_left fun _ _ hderives => .groupItem (.group hopen h) hderives

theorem Tails.closer {n : Nat} {c : Char} {text : List Char} (hclose : isCloser c = true)
    (h : Tails n text) : Tails (n + 1) (c :: text) :=
  .more (.closer hclose) h

/-- Units as the grammar sees them: code inside a number of groups, or the parts of a template. -/
def Stretch.Phrased : Stretch → Prop
  | .code units next => ∀ (depth : Nat) (closer : Char), next = some closer →
      isCloser closer = true → 1 ≤ depth → (Extent.bracket depth).Holds units →
      depth + units.rise = 1 → Tails depth (codeText units ++ [closer])
  | .template parts next => next = some backtick →
      Derives .templateRest (partsText parts ++ [backtick])

/-- A lexeme that is an item of a group. -/
theorem phrased_cons {lexeme : Lexeme} {code : Code} {next : Option Char}
    (hcode : (Stretch.code code next).Phrased) (hrise : lexeme.rise = 0)
    (hitem : ∀ rest, rest.head? = (codeText code).head?.or next → Derives .groupRest rest →
      Derives .groupRest (lexeme.text ++ rest)) : (Stretch.code (lexeme :: code) next).Phrased := by
  rintro depth closer rfl hclose hdepth hholds hdeep
  rw [Code.rise_cons, hrise, Int.zero_add] at hdeep
  have hheld : (Extent.bracket depth).Holds code := by
    simpa [hrise] using (Extent.holds_cons.1 hholds).2
  rw [codeText, List.append_assoc]
  refine (hcode depth closer rfl hclose hdepth hheld hdeep).append_left fun rest hrest => ?_
  exact hitem rest (by rw [hrest, List.head?_append]; rfl)

theorem Faithful.phrased {stretch : Stretch} (h : Faithful stretch) : stretch.Phrased := by
  induction h with
  | nil next =>
    rintro depth closer rfl hclose hdepth - hdeep
    have hone : (depth : Int) + 0 = 1 := hdeep
    obtain rfl : depth = 1 := by omega
    exact .one (.closer hclose)
  | @char c code next hquote hcomment hcode ih =>
    by_cases hopen : isOpener c = true
    · rintro depth closer rfl hclose hdepth hholds hdeep
      have hrise : Lexeme.rise (.char c) = 1 := Lexeme.rise_of_isOpener hopen
      have hheld := (Extent.holds_cons.1 hholds).2
      rw [Code.rise_cons, hrise] at hdeep
      rw [hrise] at hheld
      -- one more group is open behind the bracket, and the bracket joins the first two
      have htails := ih (depth + 1) closer rfl hclose (by omega) hheld (by push_cast; omega)
      exact htails.opener hopen hdepth
    by_cases hclosing : isCloser c = true
    · rintro depth closer rfl hclose hdepth hholds hdeep
      have hrise : Lexeme.rise (.char c) = -1 := Lexeme.rise_of_isCloser hclosing
      obtain ⟨hlexeme, hheld⟩ := Extent.holds_cons.1 hholds
      have hne := Extent.bracket_holds_singleton_iff.1 hlexeme hrise
      rw [Code.rise_cons, hrise] at hdeep
      rw [hrise] at hheld
      obtain ⟨depth, rfl⟩ : ∃ n, depth = n + 1 := ⟨depth - 1, by omega⟩
      refine (ih depth closer rfl hclose (by omega) ?_ (by omega)).closer hclosing
      rwa [Extent.raise, show ((depth + 1 : Nat) : Int) + -1 = depth by omega] at hheld
    -- neither kind of bracket
    apply phrased_cons ih (by simp [Lexeme.rise, hopen, hclosing])
    intro rest hrest hderives
    rw [Lexeme.text, List.singleton_append]
    exact .charItem hquote (by simpa using hopen) (by simpa using hclosing) (by rwa [hrest])
      hderives
  | @comment text code next hcomment hcode ih =>
    apply phrased_cons ih rfl
    intro rest hrest hderives
    rw [← hrest] at hcomment
    exact hderives.comment_append hcomment
  | literal hquote hbody hcode ih =>
    apply phrased_cons ih rfl
    intro rest _ hderives
    exact .quotedItem (.literal hquote hbody) hderives
  | template hparts hcode ihparts ih =>
    apply phrased_cons ih rfl
    intro rest _ hderives
    exact .quotedItem (.template (ihparts rfl)) hderives
  | noParts next =>
    intro _
    exact .backtick
  | escape c _ ih =>
    rintro rfl
    exact .escape c (ih rfl)
  | part hslash htick hhole _ ih =>
    rintro rfl
    simp only [partsText, Part.text, List.cons_append, List.nil_append]
    exact .templateChar htick hslash (by rwa [List.head?_append]) (ih rfl)
  | @hole code closer parts next hclose hholds hrise hcode _ ihcode ih =>
    rintro rfl
    have hgroup : Derives .group ('\x7b' :: (codeText code ++ [closer])) :=
      .group (by decide) (ihcode 1 closer rfl hclose (by decide) hholds (by simp [hrise])).of_one
    have := Derives.hole hgroup (ih rfl)
    simpa [partsText, Part.text] using this

theorem Enclosed.derives {code : Code} {closer : Char} (h : Enclosed code closer) :
    Derives .groupRest (codeText code ++ [closer]) :=
  (h.faithful.phrased 1 closer rfl h.isCloser (by decide) h.holds (by simp [h.rise])).of_one

theorem derives_quoted {lexeme : Lexeme} {quote : Char} (hquote : lexeme.quote? = some quote)
    (h : lexeme.FaithfulBefore none) : Derives (.quoted quote) lexeme.text := by
  cases lexeme with
  | char c => simp [Lexeme.quote?] at hquote
  | comment text => simp [Lexeme.quote?] at hquote
  | literal quote body =>
    cases hquote
    exact .literal h.1 h.2
  | template parts =>
    cases hquote
    exact .template (Faithful.phrased h rfl)

/-! ## Positions -/

section Positions

variable {text : List Char} {start stop : Nat}

theorem drop_eq_extract_append_of_le (text : List Char) (hle : start ≤ stop) :
    text.drop start = text.extract start stop ++ text.drop stop := by
  have hsplit := List.take_append_drop (stop - start) (text.drop start)
  rwa [List.drop_drop, Nat.add_sub_cancel' hle, ← List.extract_eq_take_drop, eq_comm] at hsplit

theorem drop_eq_extract_append (text : List Char) (start stop : Nat)
    (h : text.extract start stop ≠ []) :
    text.drop start = text.extract start stop ++ text.drop stop := by
  have hle : start ≤ stop := by
    rcases Nat.le_total start stop with hle | hle
    · exact hle
    · simp [List.extract_eq_take_drop, Nat.sub_eq_zero_of_le hle] at h
  exact drop_eq_extract_append_of_le text hle

/-- The position in front of what stands behind a phrase is the phrase's last one. -/
theorem extract_of_drop_eq {phrase behind : List Char} (h : text.drop start = phrase ++ behind)
    (hphrase : phrase ≠ []) :
    text.length - behind.length - 1 < text.length
      ∧ text.extract start (text.length - behind.length - 1 + 1) = phrase := by
  have hlength := congrArg List.length h
  rw [List.length_drop, List.length_append] at hlength
  have hpos : 0 < phrase.length := List.length_pos_iff.2 hphrase
  refine ⟨by omega, ?_⟩
  rw [List.extract_eq_take_drop, h,
    show text.length - behind.length - 1 + 1 - start = phrase.length by omega, List.take_left]

theorem length_sub_drop (h : stop < text.length) :
    text.length - (text.drop (stop + 1)).length - 1 = stop := by
  rw [List.length_drop]
  omega

theorem drop_eq_cons {c : Char} (h : text[start]? = some c) :
    text.drop start = c :: text.drop (start + 1) := by
  obtain ⟨hlt, rfl⟩ := List.getElem?_eq_some_iff.1 h
  exact List.drop_eq_getElem_cons hlt

/-! ### Brackets -/

/-- Code that starts with an opening bracket and needs one more closing bracket is enclosed code
and the bracket in front of it. -/
theorem exists_enclosed {code : Code} {opener closer : Char}
    (hhead : (codeText code ++ [closer]).head? = some opener) (hopen : isOpener opener = true)
    (hclose : isCloser closer = true) (hcode : Faithful (.code code (some closer)))
    (hholds : (Extent.bracket 0).Holds code) (hrise : code.rise = 1) :
    ∃ inner, code = .char opener :: inner ∧ Enclosed inner closer := by
  cases code with
  | nil =>
    obtain rfl : closer = opener := by simpa [codeText] using hhead
    simp [not_isCloser_of_isOpener hopen] at hclose
  | cons lexeme code =>
    obtain ⟨hlexeme, hrest⟩ := faithful_cons.1 hcode
    cases lexeme with
    | comment text =>
      obtain rfl : '/' = opener := by
        simpa [codeText, Lexeme.text, List.head?_append, IsComment.head?_eq hlexeme] using hhead
      exact absurd hopen (by decide)
    | literal quote body =>
      obtain rfl : quote = opener := by simpa [codeText, Lexeme.text] using hhead
      exact absurd hlexeme.1.isQuote (by simp [not_isQuote_of_isOpener hopen])
    | template parts =>
      obtain rfl : backtick = opener := by simpa [codeText, Lexeme.text] using hhead
      exact absurd hopen (by decide)
    | char c =>
      obtain rfl : c = opener := by simpa [codeText, Lexeme.text] using hhead
      have hone : Lexeme.rise (.char c) = 1 := Lexeme.rise_of_isOpener hopen
      have hheld := (Extent.holds_cons.1 hholds).2
      rw [hone] at hheld
      rw [Code.rise_cons, hone] at hrise
      exact ⟨code, rfl, hclose, hheld, by omega, hrest⟩

/-- Where the scan from an opening bracket ends, and what it passed over. -/
theorem exists_enclosed_of_closingBracket? {c : Char} (hc : text[start]? = some c)
    (hopen : isOpener c = true) (h : closingBracket? text start = .ok (some stop)) :
    ∃ (code : Code) (closer : Char) (behind : List Char), Enclosed code closer
      ∧ text.drop start = c :: (codeText code ++ closer :: behind)
      ∧ stop = text.length - behind.length - 1 := by
  rw [closingBracket?] at h
  split at h
  · next code closer behind hread =>
    obtain ⟨htext, hcode, hholds, hraise, hclose⟩ := read_eq_closed (by simp) hread
    have hhead : (codeText code ++ [closer]).head? = some c := by
      have hfirst := congrArg List.head? htext
      rw [drop_eq_cons hc, List.head?_append] at hfirst
      rw [List.head?_append]
      exact hfirst.symm
    obtain ⟨inner, rfl, hinner⟩ :=
      exists_enclosed hhead hopen hclose hcode hholds (by simpa [Extent.raise] using hraise)
    exact ⟨inner, closer, behind, hinner, by simpa [codeText, Lexeme.text] using htext,
      by simpa using h.symm⟩
  · simp at h
  · simp at h

theorem closingBracket?_eq_some_iff {c : Char} (hc : text[start]? = some c)
    (hopen : isOpener c = true) :
    closingBracket? text start = .ok (some stop)
      ↔ stop < text.length ∧ Derives .group (text.extract start (stop + 1)) := by
  constructor
  · intro h
    obtain ⟨code, closer, behind, hcode, hdrop, rfl⟩ :=
      exists_enclosed_of_closingBracket? hc hopen h
    have hphrase : text.drop start = c :: (codeText code ++ [closer]) ++ behind := by simp [hdrop]
    obtain ⟨hlt, hextract⟩ := extract_of_drop_eq hphrase (by simp)
    rw [hextract]
    exact ⟨hlt, .group hopen hcode.derives⟩
  · rintro ⟨hlt, hderives⟩
    obtain ⟨opener, code, closer, htext, hopener, hcode⟩ := hderives.spelled
    have hdrop := drop_eq_extract_append text start (stop + 1) (by simp [htext])
    rw [htext, List.cons_append, List.append_assoc, List.singleton_append] at hdrop
    rw [closingBracket?, hdrop, read_group hopener hcode]
    simp only [length_sub_drop hlt]

/-! ### Quotes -/

/-- A scan from a quote on reads one unit of code. -/
theorem closingQuote_eq {quote : Char} {rest : List Char} (hquote : isQuote quote = true)
    (htext : text.drop start = quote :: rest) :
    closingQuote text start =
      match read (.code ⟨.oneUnit, []⟩ []) (quote :: rest) with
      | .closed _ _ behind => .ok (text.length - behind.length - 1)
      | .openQuote unit => .error (.openQuote (text.length - unit.length))
      | .ended _ => .error (.openQuote start) := by
  have hread : read (.code ⟨.oneUnit, []⟩ []) (quote :: rest)
      = read (if quote = backtick then .template [] (quote :: rest) ⟨.oneUnit, []⟩ []
        else .literal quote [] (quote :: rest) ⟨.oneUnit, []⟩ []) rest := by
    rw [read_code_cons, if_pos hquote, apply_ite (read · rest)]
  rw [hread]
  unfold closingQuote
  generalize text.drop start = front at htext
  subst htext
  rfl

theorem closingQuote_eq_ok_iff {quote : Char} (hc : text[start]? = some quote)
    (hquote : isQuote quote = true) :
    closingQuote text start = .ok stop
      ↔ stop < text.length ∧ Derives (.quoted quote) (text.extract start (stop + 1)) := by
  have hcons := drop_eq_cons hc
  rw [closingQuote_eq hquote hcons]
  constructor
  · intro h
    rcases @quotedSplit _ (text.drop (start + 1)) hquote with ⟨lexeme, behind, htext, hlexeme,
      hfaithful⟩ | ⟨innermost, hunit⟩
    · rw [htext, read_quoted hlexeme (hfaithful none), if_pos rfl] at h
      obtain rfl : text.length - behind.length - 1 = stop := by simpa using h
      rw [htext] at hcons
      have hpos := lexeme_text_length_pos hlexeme
      obtain ⟨hlt, hextract⟩ := extract_of_drop_eq hcons (List.length_pos_iff.1 hpos)
      exact ⟨hlt, hextract ▸ derives_quoted hlexeme (hfaithful none)⟩
    · rw [hunit.read_eq] at h
      simp at h
  · rintro ⟨hlt, hderives⟩
    obtain ⟨lexeme, htext, hlexeme, hfaithful⟩ := hderives.spelled
    have hpos := lexeme_text_length_pos hlexeme
    have hdrop := drop_eq_extract_append text start (stop + 1)
      (by rw [htext]; exact List.length_pos_iff.1 hpos)
    rw [htext, hcons] at hdrop
    rw [hdrop, read_quoted hlexeme (hfaithful none), if_pos rfl]
    simp only [length_sub_drop hlt]

/-- A scan from a quote either returns a position or blames a quote. -/
theorem closingQuote_total {quote : Char} (hc : text[start]? = some quote)
    (hquote : isQuote quote = true) :
    (∃ stop, closingQuote text start = .ok stop)
      ∨ ∃ unit, closingQuote text start = .error (.openQuote unit) := by
  rw [closingQuote_eq hquote (drop_eq_cons hc)]
  split
  · exact .inl ⟨_, rfl⟩
  · exact .inr ⟨_, rfl⟩
  · exact .inr ⟨_, rfl⟩

theorem closingBracket?_total (text : List Char) (start : Nat) :
    (∃ stop, closingBracket? text start = .ok (some stop))
      ∨ closingBracket? text start = .ok none
      ∨ ∃ unit, closingBracket? text start = .error (.openQuote unit) := by
  rw [closingBracket?]
  split
  · exact .inl ⟨_, rfl⟩
  · exact .inr (.inr ⟨_, rfl⟩)
  · exact .inr (.inl rfl)

/-- The scans accept exactly the grammar. From an opening bracket, the position returned is the
one where a group ends, and from a quote it is the one where a quoted text ends. They return no
position exactly where no such phrase starts: then the text ends first or a quote is open. -/
theorem closing_iff_derives (text : List Char) (start : Nat) (c : Char)
    (hc : text[start]? = some c) :
    (isOpener c = true →
      (∀ stop, closingBracket? text start = .ok (some stop)
        ↔ stop < text.length ∧ Derives .group (text.extract start (stop + 1)))
      ∧ ((closingBracket? text start = .ok none
          ∨ ∃ unit, closingBracket? text start = .error (.openQuote unit))
        ↔ ∀ stop, stop < text.length → ¬ Derives .group (text.extract start (stop + 1))))
    ∧ (isQuote c = true →
      (∀ stop, closingQuote text start = .ok stop
        ↔ stop < text.length ∧ Derives (.quoted c) (text.extract start (stop + 1)))
      ∧ ((∃ unit, closingQuote text start = .error (.openQuote unit))
        ↔ ∀ stop, stop < text.length → ¬ Derives (.quoted c) (text.extract start (stop + 1)))) := by
  constructor
  · intro hopen
    have hiff := fun stop => @closingBracket?_eq_some_iff text start stop c hc hopen
    refine ⟨hiff, ?_, ?_⟩
    · intro hfail stop hlt hderives
      rw [(hiff stop).2 ⟨hlt, hderives⟩] at hfail
      simp at hfail
    · -- the scan answers in one of three ways, and only one of them is a position
      intro hnone
      rcases closingBracket?_total text start with ⟨stop, hstop⟩ | hfail
      · obtain ⟨hlt, hderives⟩ := (hiff stop).1 hstop
        exact absurd hderives (hnone stop hlt)
      · exact hfail
  · intro hquote
    have hiff := fun stop => @closingQuote_eq_ok_iff text start stop c hc hquote
    refine ⟨hiff, ?_, ?_⟩
    · rintro ⟨unit, hfail⟩ stop hlt hderives
      rw [(hiff stop).2 ⟨hlt, hderives⟩] at hfail
      simp at hfail
    · intro hnone
      rcases closingQuote_total hc hquote with ⟨stop, hstop⟩ | hfail
      · obtain ⟨hlt, hderives⟩ := (hiff stop).1 hstop
        exact absurd hderives (hnone stop hlt)
      · exact hfail

end Positions

/-- A group with a template, a hole that another bracket closes, comments with brackets in them
and an escaped quote. -/
def nestedGroup : List Char := "x\x7b\x60a$\x7b[b)\x7d\x60 /*\x7d*/ '\\'' // \x7d\n\x7d)".toList

theorem closing_iff_derives_nestedGroup :
    nestedGroup[1]? = some '\x7b' ∧ isOpener '\x7b' = true
      ∧ closingBracket? nestedGroup 1 = .ok (some 28) ∧ Derives .group (nestedGroup.extract 1 29)
      ∧ nestedGroup[2]? = some backtick ∧ isQuote backtick = true
      ∧ closingQuote nestedGroup 2 = .ok 10
      ∧ Derives (.quoted backtick) (nestedGroup.extract 2 11) := by
  have hbrace : nestedGroup[1]? = some '\x7b' := by cbv
  have hbracket : closingBracket? nestedGroup 1 = .ok (some 28) := by cbv
  have htick : nestedGroup[2]? = some backtick := by cbv
  have hquote : closingQuote nestedGroup 2 = .ok 10 := by cbv
  have hgroup := (closing_iff_derives nestedGroup 1 _ hbrace).1 (by decide)
  have hquoted := (closing_iff_derives nestedGroup 2 _ htick).2 (by decide)
  exact ⟨hbrace, by decide, hbracket, ((hgroup.1 28).1 hbracket).2, htick, by decide, hquote,
    ((hquoted.1 10).1 hquote).2⟩

end StyleAudit
