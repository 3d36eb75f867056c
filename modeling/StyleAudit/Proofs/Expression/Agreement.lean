import StyleAudit.Proofs.Expression.Layout
import StyleAudit.Proofs.Expression.Rescan

/-!
# When an expression cannot be interpreted

An expression is read once. Interpreted text by text, it is scanned again at every level of the
recursion, each slice from its own first character on (`Slice.pieces`). On the text of faithful code
each of these scans succeeds, and it cuts the text where the code is cut, so both ways give the same
pieces (`Stage.pieces_slice`). What is left to fail is the first pass over the whole expression.
-/

namespace StyleAudit

/-! ## Cuts at operators -/

/-- The places of marks are found where the marks are. -/
theorem colonPlace?_eq {before : List Char} {marked : List (Lexeme × Bool)}
    (hmarks : ∀ lexeme, (lexeme, true) ∈ marked → ∃ c ∈ choiceMarks, lexeme = .char c)
    (pending : Nat) :
    colonPlace? (before ++ codeText (marked.map (·.1))) pending (markedPlaces before.length marked)
      = (Code.cutAtColon pending marked).map fun cut => before.length + cut.1.width := by
  induction marked generalizing before pending with
  | nil => rfl
  | cons entry marked ih =>
    obtain ⟨lexeme, isMark⟩ := entry
    have hrest : ∀ pending', colonPlace? (before ++ codeText (lexeme :: marked.map (·.1))) pending'
        (markedPlaces (before.length + lexeme.text.length) marked)
        = (Code.cutAtColon pending' marked).map fun cut =>
          before.length + Code.width (lexeme :: cut.1) := by
      intro pending'
      have h := @ih (before ++ lexeme.text)
        (fun other hmem => hmarks other (List.mem_cons_of_mem _ hmem)) pending'
      rw [List.append_assoc, List.length_append] at h
      simpa [codeText, Nat.add_assoc] using h
    cases isMark with
    | false =>
      rw [List.map_cons, markedPlaces, hrest]
      cases lexeme <;> simp [Code.cutAtColon, Function.comp_def]
    | true =>
      obtain ⟨c, hc, rfl⟩ := hmarks lexeme List.mem_cons_self
      have hplace :
          (before ++ codeText (.char c :: marked.map (·.1)))[before.length]? = some c := by
        simp [codeText, Lexeme.text]
      simp only [choiceMarks, List.mem_cons, List.not_mem_nil, or_false] at hc
      rcases hc with rfl | rfl
      · simp only [List.map_cons, markedPlaces, colonPlace?, hplace, if_true, hrest]
        simp [Code.cutAtColon, Function.comp_def]
      · have hne : ¬ some ':' = some '?' := by decide
        cases pending with
        | zero =>
          simp only [List.map_cons, markedPlaces, colonPlace?, hplace, if_neg hne]
          simp [Code.cutAtColon]
        | succ pending =>
          simp only [List.map_cons, markedPlaces, colonPlace?, hplace, if_neg hne, hrest]
          simp [Code.cutAtColon, Function.comp_def]

theorem choicePlaces?_eq {before : List Char} {marked : List (Lexeme × Bool)}
    (hmarks : ∀ lexeme, (lexeme, true) ∈ marked → ∃ c ∈ choiceMarks, lexeme = .char c) :
    choicePlaces? (before ++ codeText (marked.map (·.1))) (markedPlaces before.length marked)
      = (Code.cutConditional marked).map fun cut =>
        (before.length + cut.condition.width,
          before.length + cut.condition.width + cut.yes.width + 1) := by
  induction marked generalizing before with
  | nil => rfl
  | cons entry marked ih =>
    obtain ⟨lexeme, isMark⟩ := entry
    have htail : ∀ other, (other, true) ∈ marked → ∃ c ∈ choiceMarks, other = .char c :=
      fun other hmem => hmarks other (List.mem_cons_of_mem _ hmem)
    have hrest := @ih (before ++ lexeme.text) htail
    have hcolon := @colonPlace?_eq (before ++ lexeme.text) marked htail 0
    rw [List.append_assoc, List.length_append] at hrest hcolon
    rw [List.map_cons, codeText]
    cases isMark with
    | false =>
      rw [markedPlaces, hrest]
      cases lexeme <;> simp [Code.cutConditional, Function.comp_def, Nat.add_assoc]
    | true =>
      obtain ⟨c, hc, rfl⟩ := hmarks lexeme List.mem_cons_self
      have hplace :
          (before ++ ((Lexeme.char c).text ++ codeText (marked.map (·.1))))[before.length]?
            = some c := by
        simp [Lexeme.text]
      rw [markedPlaces, choicePlaces?, hplace]
      simp only [choiceMarks, List.mem_cons, List.not_mem_nil, or_false] at hc
      rcases hc with rfl | rfl
      · rw [if_pos rfl, hcolon]
        simp [Code.cutConditional, Function.comp_def, Lexeme.text, Nat.add_right_comm]
      · rw [if_neg (by decide), hrest]
        simp [Code.cutConditional, Function.comp_def, Lexeme.text, Nat.add_assoc]

/-- Between the places of marks lie the operands, the first of them from `start` on. -/
theorem rangesFrom_markedPlaces {marked : List (Lexeme × Bool)}
    (hmarks : ∀ lexeme, (lexeme, true) ∈ marked → ∃ c, lexeme = .char c) (start place : Nat) :
    ∃ n first more, placed place (Code.cutAtMarks marked) = (n, first) :: more
      ∧ rangesFrom start (place + Code.width (marked.map (·.1))) (markedPlaces place marked)
        = (start, n + first.width) :: more.map fun entry => (entry.1, entry.1 + entry.2.width) := by
  induction marked generalizing start place with
  | nil => exact ⟨place, [], [], rfl, rfl⟩
  | cons entry marked ih =>
    obtain ⟨lexeme, isMark⟩ := entry
    have htail : ∀ other, (other, true) ∈ marked → ∃ c, other = .char c :=
      fun other hmem => hmarks other (List.mem_cons_of_mem _ hmem)
    obtain ⟨operand, operands, hcut⟩ := exists_cutAtMarks marked
    cases isMark with
    | true =>
      obtain ⟨c, rfl⟩ := hmarks lexeme List.mem_cons_self
      obtain ⟨n, first, more, hplaced, hranges⟩ := ih htail (place + 1) (place + 1)
      refine ⟨place, [], placed (place + 1) (Code.cutAtMarks marked), rfl, ?_⟩
      rw [markedPlaces, rangesFrom, Lexeme.text, List.length_singleton, List.map_cons,
        Code.width_char, ← Nat.add_assoc, hranges, hplaced]
      rw [hcut, placed] at hplaced
      obtain ⟨hfirst, -⟩ := List.cons.inj hplaced
      obtain ⟨rfl, -⟩ := Prod.mk.inj hfirst
      rfl
    | false =>
      obtain ⟨n, first, more, hplaced, hranges⟩ :=
        ih htail start (place + lexeme.text.length)
      rw [hcut, placed] at hplaced
      obtain ⟨hfirst, rfl⟩ := List.cons.inj hplaced
      obtain ⟨rfl, rfl⟩ := Prod.mk.inj hfirst
      refine ⟨place, lexeme :: operand, _, by rw [Code.cutAtMarks, hcut, placed], ?_⟩
      rw [markedPlaces, List.map_cons, Code.width_cons, ← Nat.add_assoc, hranges, Code.width_cons]
      simp only [Nat.add_assoc]

/-- What stands where an operand is placed is the text of the operand. -/
theorem extract_of_mem_placed {operands : List Code} {before : List Char} {n : Nat}
    {operand : Code} (h : (n, operand) ∈ placed before.length operands) :
    (before ++ codeText ([.char '+'].intercalate operands)).extract n (n + operand.width)
      = codeText operand := by
  induction operands generalizing before with
  | nil => simp [placed] at h
  | cons first operands ih =>
    rcases List.mem_cons.mp h with heq | h
    · obtain ⟨rfl, rfl⟩ := Prod.mk.inj heq
      obtain ⟨behind, hbehind⟩ : ∃ behind, codeText ([.char '+'].intercalate (operand :: operands))
          = codeText operand ++ behind := by
        cases operands with
        | nil => exact ⟨[], by simp⟩
        | cons next operands =>
          exact ⟨_, by rw [List.intercalate_cons_cons, List.append_assoc, codeText_append]⟩
      rw [hbehind, Code.width, extract_unit]
    · cases operands with
      | nil => simp [placed] at h
      | cons next operands =>
        have hrest := @ih (before ++ codeText first ++ ['+']) (by
          simpa [Code.width, Nat.add_assoc] using h)
        rw [List.intercalate_cons_cons]
        simpa [codeText_append, codeText, Lexeme.text] using hrest

/-! ## Groups and quoted units -/

theorem codeText_ne_nil {lexeme : Lexeme} {code : Code}
    (h : Faithful (.code (lexeme :: code) none)) : codeText (lexeme :: code) ≠ [] := by
  have hlexeme := (faithful_cons.mp h).1
  cases lexeme with
  | comment text =>
    obtain ⟨body, rfl⟩ := List.head?_eq_some_iff.mp (IsComment.head?_eq hlexeme)
    simp [codeText, Lexeme.text]
  | _ => simp [codeText, Lexeme.text]

theorem codeText_eq_nil_iff {code : Code} (h : Faithful (.code code none)) :
    codeText code = [] ↔ code = [] := by
  cases code with
  | nil => exact iff_of_true rfl rfl
  | cons lexeme code => exact iff_of_false (codeText_ne_nil h) (by simp)

/-- A parenthesis at the front of the text is one at the front of the code. -/
theorem exists_of_head?_paren {code : Code} (h : Faithful (.code code none))
    (hhead : (codeText code).head? = some '(') : ∃ rest, code = .char '(' :: rest := by
  cases code with
  | nil => cases hhead
  | cons lexeme code =>
    have hlexeme := (faithful_cons.mp h).1
    cases lexeme with
    | char c =>
      obtain rfl : c = '(' := by simpa [codeText, Lexeme.text] using hhead
      exact ⟨code, rfl⟩
    | comment text =>
      obtain ⟨body, rfl⟩ := List.head?_eq_some_iff.mp (IsComment.head?_eq hlexeme)
      cases hhead
    | literal quote body =>
      obtain rfl : quote = '(' := by simpa [codeText, Lexeme.text] using hhead
      exact absurd hlexeme.1.isQuote (by decide)
    | template parts => cases hhead

/-- The bracket that a scan from a parenthesis finds is the one that closes it in the code. -/
theorem closingBracket?_paren {rest : Code} (h : Faithful (.code (.char '(' :: rest) none)) :
    closingBracket? (codeText (.char '(' :: rest)) 0
      = .ok ((Code.afterCloser 1 rest).map fun behind =>
        (codeText (.char '(' :: rest)).length - (codeText behind).length - 1) := by
  rw [closingBracket?, List.drop_zero]
  cases hafter : Code.afterCloser 1 rest with
  | none =>
    have hholds : (Extent.bracket 0).Holds (.char '(' :: rest) := by
      rw [Extent.holds_cons]
      exact ⟨Extent.bracket_holds_singleton_iff.mpr fun _ => by decide, hafter⟩
    have hread := read_code ⟨.bracket 0, []⟩ [] [] h hholds
    rw [List.append_nil, read_nil] at hread
    rw [hread]
    rfl
  | some behind =>
    obtain ⟨inner, closer, rfl, hclose, hholds, hrise⟩ := afterCloser_eq_some_iff.mp hafter
    have hinner := (faithful_append.mp (faithful_cons.mp h).2).1
    have henclosed : Enclosed inner closer := ⟨hclose, hholds, by omega, hinner⟩
    have htext : codeText (.char '(' :: (inner ++ .char closer :: behind))
        = '(' :: (codeText inner ++ closer :: codeText behind) := by
      simp [codeText, codeText_append, Lexeme.text]
    rw [htext, read_group (by decide) henclosed]
    rfl

/-- A text is found to stand in parentheses where the code does. -/
theorem scanGroup_codeText {code : Code} (h : Faithful (.code code none)) :
    scanGroup (codeText code) = .ok code.unwrap?.isSome := by
  unfold scanGroup
  split
  · next hhead =>
    obtain ⟨rest, rfl⟩ := exists_of_head?_paren h hhead
    have hrest := (faithful_cons.mp h).2
    rw [closingBracket?_paren h, Code.unwrap?]
    cases hafter : Code.afterCloser 1 rest with
    | none => rfl
    | some behind =>
      -- the bracket found is the last character if nothing stands behind it
      obtain ⟨inner, closer, hcode, -⟩ := afterCloser_eq_some_iff.mp hafter
      have hbehind : Faithful (.code behind none) :=
        hrest.of_slice ⟨inner ++ [.char closer], [], by simp [hcode]⟩
      have hlength : (codeText behind).length + 2 ≤ (codeText (.char '(' :: rest)).length := by
        rw [hcode]
        simp only [codeText, codeText_append, Lexeme.text, List.length_append, List.length_cons]
        omega
      have hlast : (codeText (.char '(' :: rest)).length - (codeText behind).length - 1
          = (codeText (.char '(' :: rest)).length - 1 ↔ behind = [] := by
        rw [← codeText_eq_nil_iff hbehind, ← List.length_eq_zero_iff]
        omega
      rw [Option.map_some]
      simp only [scanned, Except.map, Except.mapError, Option.some.injEq, hlast]
      cases behind <;> rfl
  · next hhead =>
    have hunwrap : code.unwrap? = none := by
      unfold Code.unwrap?
      split
      · exact absurd rfl hhead
      · rfl
    rw [hunwrap]
    rfl

theorem inside_cons_concat (first last : Char) (body : List Char) :
    inside (first :: (body ++ [last])) = body := by
  simp [inside, List.extract_eq_take_drop]

theorem inside_of_unwrap? {code inner : Code} (h : code.unwrap? = some inner) :
    inside (codeText code) = codeText inner := by
  obtain ⟨closer, rfl, -⟩ := unwrap?_eq_some_iff.mp h
  have htext : codeText (.char '(' :: (inner ++ [.char closer]))
      = '(' :: (codeText inner ++ [closer]) := by
    simp [codeText, codeText_append, Lexeme.text]
  rw [htext, inside_cons_concat]

/-- The text of bare code is found to be one quoted unit where the code is one. -/
theorem scanQuoted_codeText {lexeme : Lexeme} {code : Code}
    (h : Faithful (.code (lexeme :: code) none)) (hbare : Bare (lexeme :: code)) :
    scanQuoted (codeText (lexeme :: code)) = .ok (lexeme.isQuoted && code.isEmpty) := by
  obtain ⟨hlexeme, hrest⟩ := faithful_cons.mp h
  unfold scanQuoted
  rcases char_or_quoted hlexeme (hbare.head List.mem_cons_self) with ⟨c, rfl, hc⟩ |
    ⟨quote, body, hquote, htext, hisQuote⟩
  · rw [if_neg (by simp [codeText, Lexeme.text, hc])]
    rfl
  · have hstop := @closingQuote_unit [] (codeText code) lexeme quote hquote hlexeme.at_end
    have hlength : 2 ≤ lexeme.text.length := by
      rw [htext]
      simp
    rw [List.nil_append, List.length_nil, Nat.zero_add] at hstop
    have hlast : lexeme.text.length - 1 = (codeText (lexeme :: code)).length - 1 ↔ code = [] := by
      rw [← codeText_eq_nil_iff hrest, ← List.length_eq_zero_iff, codeText, List.length_append]
      omega
    have hcond : 2 ≤ (codeText (lexeme :: code)).length
        ∧ (codeText (lexeme :: code)).head?.any isQuote = true := by
      constructor
      · rw [codeText, List.length_append]
        omega
      · simp [codeText, htext, hisQuote]
    rw [if_pos hcond, codeText, hstop, ← codeText, isQuoted_of_quote? hquote]
    simp only [scanned, Except.map, Except.mapError, hlast]
    cases code <;> rfl

/-! ## Templates -/

section TemplateSteps

variable {start front place : Nat} {text tail : List Char}

theorem templateItemsFrom_end (hrest : text.drop place = []) :
    templateItemsFrom start text front place
      = .ok [.piece (.literal (text.drop front) (start + front))] := by
  rw [templateItemsFrom.eq_def]
  split <;> simp_all

theorem templateItemsFrom_escape (hrest : text.drop place = '\\' :: tail) :
    templateItemsFrom start text front place = templateItemsFrom start text front (place + 2) := by
  rw [templateItemsFrom.eq_def]
  split <;> simp_all

theorem templateItemsFrom_hole {stop : Nat} (hrest : text.drop place = '$' :: '\x7b' :: tail)
    (hstop : closingBracket? text (place + 1) = .ok (some stop)) :
    templateItemsFrom start text front place
      = (templateItemsFrom start text (stop + 1) (stop + 1)).map fun items =>
        .piece (.literal (text.extract front place) (start + front))
          :: .slice ⟨.expression, text.extract (place + 2) stop, start + place + 2⟩ :: items := by
  rw [templateItemsFrom.eq_def]
  split
  · simp_all
  · simp_all
  · split <;> simp_all
  · simp_all

theorem templateItemsFrom_char {c : Char} (hrest : text.drop place = c :: tail) (hslash : c ≠ '\\')
    (hhole : ¬ (c = '$' ∧ tail.head? = some '\x7b')) :
    templateItemsFrom start text front place = templateItemsFrom start text front (place + 1) := by
  rw [templateItemsFrom.eq_def]
  split
  · next hnil => simp [hrest] at hnil
  · next heq =>
    obtain ⟨hc, -⟩ := List.cons.inj (hrest.symm.trans heq)
    exact absurd hc hslash
  · next heq =>
    obtain ⟨hc, rfl⟩ := List.cons.inj (hrest.symm.trans heq)
    exact absurd ⟨hc, rfl⟩ hhole
  · rfl

end TemplateSteps

/-- What a stretch of a template is among the items of its text. -/
def Span.item : Span → Item
  | .text chars start => .piece (.literal chars start)
  | .hole code start => .slice ⟨.expression, codeText code, start⟩

/-- The items of a template are its stretches. -/
theorem templateItemsFrom_parts {parts : List Part} {next : Option Char}
    (h : Faithful (.template parts next)) (start : Nat) (before done : List Char) :
    templateItemsFrom start (before ++ (done ++ partsText parts)) before.length
        (before.length + done.length)
      = .ok ((spans (start + before.length + done.length) done.reverse parts).map Span.item) := by
  -- the text behind the place is that of the parts
  have hdrop : ∀ (before done : List Char) (parts : List Part),
      (before ++ (done ++ partsText parts)).drop (before.length + done.length)
        = partsText parts := by
    intro before done parts
    rw [← List.append_assoc]
    exact List.drop_left' (by simp)
  generalize hstretch : Stretch.template parts next = stretch at h
  induction h generalizing parts next before done with
  | noParts =>
    cases hstretch
    rw [templateItemsFrom_end (hdrop before done []), partsText, List.append_nil, List.drop_left]
    simp [spans, Span.item]
  | @escape c parts _ _ ih =>
    cases hstretch
    have hmore := ih before (done ++ ['\\', c]) rfl
    rw [templateItemsFrom_escape (hdrop before done _)]
    simpa [partsText, Part.text, spans, Nat.add_assoc] using hmore
  | @part c parts _ hslash htick hhole _ ih =>
    cases hstretch
    have hmore := ih before (done ++ [c]) rfl
    rw [templateItemsFrom_char (hdrop before done _) hslash ?_]
    · simpa [partsText, Part.text, spans, Nat.add_assoc] using hmore
    · rintro ⟨hc, hhead⟩
      have hbrace : (partsText parts).head? = some '\x7b' := hhead
      exact hhole ⟨hc, by rw [hbrace]; rfl⟩
  | @hole code closer parts _ hclose hholds hrise hcode _ _ ih =>
    cases hstretch
    have hparts : partsText (.hole code closer :: parts)
        = '$' :: '\x7b' :: (codeText code ++ closer :: partsText parts) := by
      simp [partsText, Part.text]
    have hrest := hdrop before done (.hole code closer :: parts)
    rw [hparts] at hrest ⊢
    -- from the brace on, the hole is a group
    have hstop : closingBracket? (before ++ (done ++ '$' :: '\x7b' ::
        (codeText code ++ closer :: partsText parts))) (before.length + done.length + 1)
        = .ok (some (before.length + done.length + 2 + code.width)) := by
      have henclosed : Enclosed code closer := ⟨hclose, hholds, hrise, hcode⟩
      rw [closingBracket?, ← List.tail_drop, hrest, List.tail_cons,
        read_group (by decide) henclosed]
      simp only [List.length_append, List.length_cons, Code.width]
      congr 2
      omega
    have hplace : before.length + done.length + 2 + code.width + 1
        = (before ++ (done ++ '$' :: '\x7b' :: (codeText code ++ [closer]))).length := by
      simp only [List.length_append, List.length_cons, List.length_nil, Code.width]
      omega
    have hmore := ih (before ++ (done ++ '$' :: '\x7b' :: (codeText code ++ [closer]))) [] rfl
    have htext : before ++ (done ++ '$' :: '\x7b' :: (codeText code ++ [closer]))
        ++ ([] ++ partsText parts)
        = before ++ (done ++ '$' :: '\x7b' :: (codeText code ++ closer :: partsText parts)) := by
      simp
    rw [htext, ← hplace, List.length_nil, Nat.add_zero] at hmore
    have hhole := extract_unit (before ++ (done ++ ['$', '\x7b'])) (codeText code)
      (closer :: partsText parts)
    have hinner : (before ++ (done ++ '$' :: '\x7b' :: (codeText code ++ closer :: partsText parts))
        ).extract (before.length + done.length + 2) (before.length + done.length + 2 + code.width)
        = codeText code := by
      simpa [Code.width, Nat.add_assoc] using hhole
    have hnext : start + (before.length + done.length + 2 + code.width + 1) + 0
        = start + before.length + done.length + (Part.hole code closer).text.length := by
      simp only [Part.text, List.length_cons, List.length_append, List.length_nil, Code.width]
      omega
    have hfront : start + before.length + done.length - done.reverse.length
        = start + before.length := by
      rw [List.length_reverse]
      omega
    rw [templateItemsFrom_hole hrest hstop, extract_unit, hinner, hmore, spans, hnext, hfront,
      List.reverse_reverse, ← Nat.add_assoc start]
    rfl
  | _ => cases hstretch

/-! ## Stages as slices -/

namespace Stage

/-- The slice that a stage is when it starts at a position. -/
def slice (start : Nat) : Stage → Slice
  | .expression code => ⟨.expression, codeText code, start⟩
  | .branch code => ⟨.branch, codeText code, start⟩
  | .operand code => ⟨.operand, codeText code, start⟩
  | .template parts => ⟨.template, partsText parts, start⟩

/-- A sound stage that has been cut out of code whose comments are blanked. -/
def Cut : Stage → Prop
  | .branch code => Faithful (.code code none) ∧ Bare code
  | .operand code => Faithful (.code code none) ∧ Bare code
  | stage => stage.Sound

theorem Cut.sound {stage : Stage} (h : stage.Cut) : stage.Sound := by
  cases stage with
  | branch code => exact h.1
  | operand code => exact h.1
  | expression code => exact h
  | template parts => exact h

theorem Enters.cut {stage next : Stage} (h : Enters stage next) (hcut : stage.Cut) : next.Cut := by
  have hsound := h.sound hcut.sound
  cases h with
  | @yes code cut h =>
    refine ⟨hsound, (bare_blanked code).of_slice (.trans ?_ (trim_slice _))⟩
    rw [conditional?_eq h]
    exact ⟨cut.condition ++ [.char '?'], .char ':' :: cut.no, by simp⟩
  | @no code cut h =>
    refine ⟨hsound, (bare_blanked code).of_slice (.trans ?_ (trim_slice _))⟩
    rw [conditional?_eq h]
    exact ⟨cut.condition ++ .char '?' :: (cut.yes ++ [.char ':']), [], by simp⟩
  | @summand code operand _ h =>
    exact ⟨hsound, (bare_blanked code).of_slice ((operands_slice h).trans (trim_slice _))⟩
  | _ => exact hsound

end Stage

/-- A conditional is found where its question mark and its colon are. -/
theorem scanChoice_codeText {code : Code} (h : Faithful (.code code none)) :
    scanChoice (codeText code)
      = .ok (code.conditional?.map fun cut =>
        (cut.condition.width, cut.condition.width + cut.yes.width + 1)) := by
  have hmarks : ∀ lexeme, (lexeme, true) ∈ code.flagged choiceMarks 0 →
      ∃ c ∈ choiceMarks, lexeme = .char c := fun _ => mem_of_mem_flagged
  have hplaces := @choicePlaces?_eq [] _ hmarks
  rw [Code.map_flagged, List.nil_append, List.length_nil] at hplaces
  rw [scanChoice, topLevelPlaces_codeText _ h]
  simp only [Except.map, hplaces, Nat.zero_add]
  rfl

/-- The ranges between plus signs are the operands where they are placed. -/
theorem map_rangesFrom {code : Code} (start : Nat) :
    (rangesFrom 0 (codeText code).length (markedPlaces 0 (code.flagged sumMarks 0))).map
        (fun range =>
          Item.slice ⟨.operand, (codeText code).extract range.1 range.2, start + range.1⟩)
      = (placed start code.operands).map fun entry =>
        Item.slice ((Stage.operand entry.2).slice entry.1) := by
  have hmarks : ∀ lexeme, (lexeme, true) ∈ code.flagged sumMarks 0 → ∃ c, lexeme = .char c := by
    intro lexeme hmem
    obtain ⟨c, -, rfl⟩ := mem_of_mem_flagged hmem
    exact ⟨c, rfl⟩
  obtain ⟨n, first, more, hplaced, hranges⟩ := rangesFrom_markedPlaces hmarks 0 0
  rw [Code.map_flagged, Nat.zero_add] at hranges
  have hfirst : n = 0 := by
    obtain ⟨operand, operands, hcut⟩ := exists_cutAtMarks (code.flagged sumMarks 0)
    rw [hcut, placed] at hplaced
    exact (Prod.mk.inj (List.cons.inj hplaced).1).1.symm
  have hoperands : placed 0 code.operands = (n, first) :: more := hplaced
  have hstart := placed_add start 0 code.operands
  rw [Nat.zero_add, hoperands] at hstart
  have htext : ∀ entry ∈ (n, first) :: more,
      (codeText code).extract entry.1 (entry.1 + entry.2.width) = codeText entry.2 := by
    intro entry hmem
    have hextract := @extract_of_mem_placed code.operands [] entry.1 entry.2 (by
      rwa [List.length_nil, hoperands])
    rwa [intercalate_operands, List.nil_append] at hextract
  have hall : rangesFrom 0 (codeText code).length (markedPlaces 0 (code.flagged sumMarks 0))
      = ((n, first) :: more).map fun entry => (entry.1, entry.1 + entry.2.width) := by
    rw [← Code.width, hranges, hfirst]
    simp
  rw [hall, hstart, List.map_map, List.map_map]
  refine List.map_congr_left fun entry hmem => ?_
  show Item.slice ⟨.operand, (codeText code).extract entry.1 (entry.1 + entry.2.width), _⟩ = _
  rw [htext entry hmem, Nat.add_comm start]
  rfl

section Items

variable {code : Code} (start : Nat)

theorem strip_eq_nil_iff (hcode : Faithful (.code code none)) (hbare : Bare code) :
    strip (codeText code) = [] ↔ code.trim = [] := by
  rw [strip_codeText hcode hbare]
  exact codeText_eq_nil_iff (hcode.of_slice (trim_slice code))

theorem expressionItems_blank (hcode : Faithful (.code code none))
    (htrim : code.blanked.trim = []) : expressionItems start (codeText code) = .ok [] := by
  have hnil : strip (codeText code.blanked) = [] :=
    (strip_eq_nil_iff hcode.blanked (bare_blanked code)).mpr htrim
  unfold expressionItems
  rw [blankComments_eq, hcode.ofText?_text]
  show (if strip (codeText code.blanked) = [] then _ else _) = _
  rw [if_pos hnil]
  rfl

/-- The items of an expression are its branches or its operands. -/
theorem expressionItems_codeText (hcode : Faithful (.code code none))
    (htrim : code.blanked.trim ≠ []) :
    expressionItems start (codeText code) = .ok
      (match code.blanked.trim.conditional? with
      | some cut =>
        [.slice ((Stage.branch cut.yes).slice
            (start + code.blanked.lead.width + cut.condition.width + 1)),
          .slice ((Stage.branch cut.no).slice
            (start + code.blanked.lead.width + cut.condition.width + cut.yes.width + 2))]
      | none =>
        (placed (start + code.blanked.lead.width) code.blanked.trim.operands).map fun entry =>
          .slice ((Stage.operand entry.2).slice entry.1)) := by
  have hblanked := hcode.blanked
  have hbody : Faithful (.code code.blanked.trim none) := hblanked.of_slice (trim_slice _)
  have hshown : blankComments (codeText code) = .ok (codeText code.blanked) := by
    rw [blankComments_eq, hcode.ofText?_text]
  have hne : ¬ strip (codeText code.blanked) = [] := by
    rwa [strip_eq_nil_iff hblanked (bare_blanked code)]
  unfold expressionItems
  rw [hshown]
  show (if strip (codeText code.blanked) = [] then _ else _) = _
  rw [if_neg hne, strip_codeText hblanked (bare_blanked code),
    leadOf_codeText hblanked (bare_blanked code), scanChoice_codeText hbody]
  cases hcut : code.blanked.trim.conditional? with
  | some cut =>
    have htext : codeText code.blanked.trim = (codeText cut.condition ++ ['?'])
        ++ (codeText cut.yes ++ ([':'] ++ codeText cut.no)) := by
      conv_lhs => rw [conditional?_eq hcut]
      simp [codeText_append, codeText, Lexeme.text]
    have hyes : (codeText code.blanked.trim).extract (cut.condition.width + 1)
        (cut.condition.width + cut.yes.width + 1) = codeText cut.yes := by
      have hextract := extract_unit (codeText cut.condition ++ ['?']) (codeText cut.yes)
        ([':'] ++ codeText cut.no)
      rw [← htext, List.length_append, List.length_singleton] at hextract
      rwa [Nat.add_right_comm]
    have hno : (codeText code.blanked.trim).drop (cut.condition.width + cut.yes.width + 1 + 1)
        = codeText cut.no := by
      rw [htext, ← List.append_assoc, ← List.append_assoc]
      refine List.drop_left' ?_
      simp only [List.length_append, List.length_singleton, Code.width]
      omega
    have hplace : start + code.blanked.lead.width + (cut.condition.width + cut.yes.width + 1) + 1
        = start + code.blanked.lead.width + cut.condition.width + cut.yes.width + 2 := by
      omega
    show Except.ok [Item.slice ⟨.branch, (codeText code.blanked.trim).extract _ _, _⟩,
      Item.slice ⟨.branch, (codeText code.blanked.trim).drop _, _⟩] = _
    rw [hyes, hno, hplace]
    rfl
  | none =>
    show (scanned (topLevelPlaces sumMarks (codeText code.blanked.trim)) >>= _) = _
    rw [topLevelPlaces_codeText _ hbody]
    show Except.ok _ = _
    rw [map_rangesFrom]

theorem scanQuoted_sole {lexeme : Lexeme} (hcode : Faithful (.code [lexeme] none))
    (hbare : Bare [lexeme]) (hquoted : lexeme.isQuoted = true) :
    scanQuoted (codeText [lexeme]) = .ok true := by
  rw [scanQuoted_codeText hcode hbare, hquoted]
  rfl

theorem scanQuoted_other (hcode : Faithful (.code code none)) (hbare : Bare code)
    (hne : code ≠ []) (hsole : ∀ lexeme, code = [lexeme] → lexeme.isQuoted = false) :
    scanQuoted (codeText code) = .ok false := by
  obtain ⟨lexeme, rest, rfl⟩ := List.exists_cons_of_ne_nil hne
  rw [scanQuoted_codeText hcode hbare]
  cases rest with
  | nil =>
    rw [hsole lexeme rfl]
    rfl
  | cons next rest =>
    rw [List.isEmpty_cons, Bool.and_false]

theorem codeText_template (parts : List Part) :
    codeText [.template parts] = backtick :: (partsText parts ++ [backtick]) := by
  simp [codeText, Lexeme.text]

theorem branchItem_template {parts : List Part} (hcode : Faithful (.code [.template parts] none))
    (hbare : Bare [.template parts]) :
    branchItem start (codeText [.template parts])
      = .ok (.slice ((Stage.template parts).slice (start + 1))) := by
  unfold branchItem
  rw [scanQuoted_sole hcode hbare rfl, codeText_template, inside_cons_concat]
  rfl

theorem branchItem_literal {quote : Char} {text : List Char}
    (hcode : Faithful (.code [.literal quote text] none)) (hbare : Bare [.literal quote text]) :
    branchItem start (codeText [.literal quote text])
      = .ok (.piece (.literal text (start + 1))) := by
  have htick := (faithful_cons.mp hcode).1.1.ne_backtick
  have htext : codeText [.literal quote text] = quote :: (text ++ [quote]) := by
    simp [codeText, Lexeme.text]
  unfold branchItem
  rw [scanQuoted_sole hcode hbare rfl, htext, inside_cons_concat]
  show (if some quote = some backtick then _ else _) = _
  rw [if_neg (by simpa using htick)]
  rfl

theorem branchItem_other (hcode : Faithful (.code code none)) (hbare : Bare code) (hne : code ≠ [])
    (hsole : ∀ lexeme, code = [lexeme] → lexeme.isQuoted = false) :
    branchItem start (codeText code) = .ok
      (match code.unwrap? with
      | some inner => .slice ((Stage.expression inner).slice (start + 1))
      | none =>
        if code.conditional?.isSome then .slice ((Stage.expression code).slice start)
        else .piece (.dynamic (codeText code) start)) := by
  unfold branchItem
  rw [scanQuoted_other hcode hbare hne hsole, scanGroup_codeText hcode, scanChoice_codeText hcode]
  cases hunwrap : code.unwrap? with
  | some inner =>
    rw [inside_of_unwrap? hunwrap]
    rfl
  | none => cases code.conditional? <;> rfl

theorem operandItem_template {parts : List Part} (hcode : Faithful (.code [.template parts] none))
    (hbare : Bare [.template parts]) :
    operandItem start (codeText [.template parts])
      = .ok (.slice ((Stage.template parts).slice (start + 1))) := by
  unfold operandItem
  rw [scanGroup_codeText hcode, scanQuoted_sole hcode hbare rfl, codeText_template,
    inside_cons_concat]
  rfl

theorem operandItem_other (hcode : Faithful (.code code none)) (hbare : Bare code)
    (hne : code ≠ []) (htemplate : ∀ parts, code ≠ [.template parts]) :
    operandItem start (codeText code) = .ok
      (match code.unwrap? with
      | some inner => .slice ((Stage.expression inner).slice (start + 1))
      | none =>
        if code.any Lexeme.isQuoted then
          .piece (.literal ((codeText code).filter fun c => !isQuote c) start)
        else .piece (.dynamic (codeText code) start)) := by
  have hquoted : (if (codeText code).head? = some backtick then scanQuoted (codeText code)
      else .ok false) = .ok false := by
    split
    · next hhead =>
      -- a literal starts with another quote, so the code is no single unit
      refine scanQuoted_other hcode hbare hne fun lexeme hsole => ?_
      subst hsole
      cases lexeme with
      | template parts => exact absurd rfl (htemplate parts)
      | literal quote text =>
        obtain rfl : quote = backtick := by simpa [codeText, Lexeme.text] using hhead
        exact absurd rfl (faithful_cons.mp hcode).1.1.ne_backtick
      | _ => rfl
    · rfl
  unfold operandItem
  rw [scanGroup_codeText hcode, any_isQuote_codeText hcode hbare]
  cases hunwrap : code.unwrap? with
  | some inner =>
    rw [inside_of_unwrap? hunwrap]
    rfl
  | none =>
    show (((if (codeText code).head? = some backtick then scanQuoted (codeText code)
      else .ok false) : Except SliceFault Bool) >>= _) = _
    rw [hquoted]
    cases code.any Lexeme.isQuoted <;> rfl

theorem strippedItems_blank {item : Nat → List Char → Except SliceFault Item}
    (hcode : Faithful (.code code none)) (hbare : Bare code) (htrim : code.trim = []) :
    strippedItems item start (codeText code) = .ok [] := by
  rw [strippedItems, if_pos ((strip_eq_nil_iff hcode hbare).mpr htrim)]

/-- The only item of code that is not blank. -/
theorem strippedItems_codeText {item : Nat → List Char → Except SliceFault Item} {found : Item}
    (hcode : Faithful (.code code none)) (hbare : Bare code) (hne : code.trim ≠ [])
    (hitem : item (start + code.lead.width) (codeText code.trim) = .ok found) :
    strippedItems item start (codeText code) = .ok [found] := by
  unfold strippedItems
  rw [if_neg (by rwa [strip_eq_nil_iff hcode hbare]), leadOf_codeText hcode hbare,
    strip_codeText hcode hbare, hitem]
  rfl

end Items

/-! ## Stages -/

/-- A slice with one item gives what the item gives. -/
theorem Slice.pieces_of_item {slice : Slice} {item : Item} {found : List Piece}
    (hitems : slice.items = .ok [item]) (hfound : item.pieces = .ok found) :
    slice.pieces = .ok found := by
  have hall := Slice.pieces_of_items hitems (.cons hfound .nil)
  rwa [List.flatten_singleton] at hall

namespace Stage

/-- Whether a stage, interpreted text by text, gives its pieces, wherever it starts. -/
def Agrees (stage : Stage) : Prop :=
  ∀ start, (stage.slice start).pieces = .ok (stage.pieces start)

section OneStage

variable {code : Code} {parts : List Part}

theorem agrees_expression (hcut : (Stage.expression code).Cut)
    (henter : ∀ next, Enters (.expression code) next → next.Agrees) :
    (Stage.expression code).Agrees := by
  intro start
  by_cases htrim : code.blanked.trim = []
  · have hitems : (slice start (.expression code)).items = .ok [] :=
      expressionItems_blank start hcut htrim
    rw [Slice.pieces_of_items hitems .nil, Stage.pieces, pieces_of_nil start htrim]
    rfl
  have hitems := expressionItems_codeText start hcut htrim
  rw [Stage.pieces, pieces_eq]
  cases hchoice : code.blanked.trim.conditional? with
  | some cut =>
    rw [hchoice] at hitems
    have hall := @Slice.pieces_of_items (slice start (.expression code)) _ _ hitems
      (.cons (henter _ (.yes hchoice) _) (.cons (henter _ (.no hchoice) _) .nil))
    simpa [Stage.pieces] using hall
  | none =>
    rw [hchoice] at hitems
    refine @Slice.pieces_of_items (slice start (.expression code)) _ _ hitems ?_
    rw [List.forall₂_map_left_iff, List.forall₂_map_right_iff, List.forall₂_same]
    intro entry hentry
    exact henter _ (.summand hchoice (Code.mem_of_mem_placed hentry)) entry.1

theorem agrees_branch (hcut : (Stage.branch code).Cut)
    (henter : ∀ next, Enters (.branch code) next → next.Agrees) : (Stage.branch code).Agrees := by
  intro start
  obtain ⟨hcode, hbare⟩ := hcut
  have hbody : Faithful (.code code.trim none) := hcode.of_slice (trim_slice code)
  have hbareBody : Bare code.trim := hbare.of_slice (trim_slice code)
  have items : ∀ {item : Item}, code.trim ≠ [] →
      branchItem (start + code.lead.width) (codeText code.trim) = .ok item →
      (slice start (.branch code)).items = .ok [item] :=
    fun hne hitem => strippedItems_codeText start hcode hbare hne hitem
  rw [Stage.pieces, branchPieces_eq]
  split
  · next htrim =>
    have hitems : (slice start (.branch code)).items = .ok [] :=
      strippedItems_blank start hcode hbare htrim
    exact Slice.pieces_of_items hitems .nil
  · next parts htrim =>
    rw [htrim] at hbody hbareBody
    have hitem := branchItem_template (start + code.lead.width) hbody hbareBody
    rw [← htrim] at hitem
    exact Slice.pieces_of_item (items (by simp [htrim]) hitem) (henter _ (.branchTemplate htrim) _)
  · next quote text htrim =>
    rw [htrim] at hbody hbareBody
    have hitem := branchItem_literal (start + code.lead.width) hbody hbareBody
    rw [← htrim] at hitem
    exact Slice.pieces_of_item (items (by simp [htrim]) hitem) rfl
  · next hne htemplate hliteral =>
    have hother := branchItem_other (start + code.lead.width) hbody hbareBody hne
      (isQuoted_of_sole htemplate hliteral)
    have hitems := items hne hother
    split
    · next inner hunwrap =>
      rw [hunwrap] at hitems
      exact Slice.pieces_of_item hitems (henter _ (.branchGroup hunwrap) _)
    · next hunwrap =>
      rw [hunwrap] at hitems
      split
      · next hchoice =>
        rw [if_pos hchoice] at hitems
        exact Slice.pieces_of_item hitems (henter _ (.branchConditional hchoice) _)
      · next hchoice =>
        rw [if_neg hchoice] at hitems
        exact Slice.pieces_of_item hitems rfl

theorem agrees_operand (hcut : (Stage.operand code).Cut)
    (henter : ∀ next, Enters (.operand code) next → next.Agrees) :
    (Stage.operand code).Agrees := by
  intro start
  obtain ⟨hcode, hbare⟩ := hcut
  have hbody : Faithful (.code code.trim none) := hcode.of_slice (trim_slice code)
  have hbareBody : Bare code.trim := hbare.of_slice (trim_slice code)
  have items : ∀ {item : Item}, code.trim ≠ [] →
      operandItem (start + code.lead.width) (codeText code.trim) = .ok item →
      (slice start (.operand code)).items = .ok [item] :=
    fun hne hitem => strippedItems_codeText start hcode hbare hne hitem
  rw [Stage.pieces, operandPieces_eq]
  split
  · next htrim =>
    have hitems : (slice start (.operand code)).items = .ok [] :=
      strippedItems_blank start hcode hbare htrim
    exact Slice.pieces_of_items hitems .nil
  · next parts htrim =>
    rw [htrim] at hbody hbareBody
    have hitem := operandItem_template (start + code.lead.width) hbody hbareBody
    rw [← htrim] at hitem
    exact Slice.pieces_of_item (items (by simp [htrim]) hitem)
      (henter _ (.operandTemplate htrim) _)
  · next hne htemplate =>
    have hother := operandItem_other (start + code.lead.width) hbody hbareBody hne htemplate
    have hitems := items hne hother
    split
    · next inner hunwrap =>
      rw [hunwrap] at hitems
      exact Slice.pieces_of_item hitems (henter _ (.operandGroup hunwrap) _)
    · next hunwrap =>
      rw [hunwrap] at hitems
      split
      · next hquoted =>
        rw [if_pos hquoted] at hitems
        exact Slice.pieces_of_item hitems rfl
      · next hquoted =>
        rw [if_neg hquoted] at hitems
        exact Slice.pieces_of_item hitems rfl

theorem agrees_template (hcut : (Stage.template parts).Cut)
    (henter : ∀ next, Enters (.template parts) next → next.Agrees) :
    (Stage.template parts).Agrees := by
  intro start
  have hitems : (slice start (.template parts)).items
      = .ok ((spans start [] parts).map Span.item) :=
    templateItemsFrom_parts hcut start [] []
  rw [Stage.pieces, templatePieces_eq]
  refine Slice.pieces_of_items hitems ?_
  rw [List.forall₂_map_left_iff, List.forall₂_map_right_iff, List.forall₂_same]
  intro span hspan
  cases span with
  | text chars start => rfl
  | hole code start =>
    obtain ⟨closer, hhole⟩ := hole_mem_of_mem_spans hspan
    exact henter _ (.hole hhole) start

end OneStage

/-- Interpreted text by text, a stage gives its pieces. -/
theorem pieces_slice (stage : Stage) (hcut : stage.Cut) (start : Nat) :
    (stage.slice start).pieces = .ok (stage.pieces start) := by
  induction stage using Stage.induction generalizing start with
  | step stage ih =>
    have henter : ∀ next, Enters stage next → next.Agrees :=
      fun next hnext start => ih next hnext (hnext.cut hcut) start
    cases stage with
    | expression code => exact agrees_expression hcut henter start
    | branch code => exact agrees_branch hcut henter start
    | operand code => exact agrees_operand hcut henter start
    | template parts => exact agrees_template hcut henter start

end Stage

end StyleAudit
