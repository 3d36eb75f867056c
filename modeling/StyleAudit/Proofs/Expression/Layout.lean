import StyleAudit.Proofs.Code.Blanked
import StyleAudit.Proofs.Code.Tags
import StyleAudit.Proofs.Expression.Origins

/-!
# Where pieces come from

Every piece of an expression stands for a stretch of its text (`Stands`). The pieces come in the
order of their stretches, and no two stretches share a character (`Layout`, `sources_layout`). So
nothing is made up, and nothing counts twice. The text carries its tags, so that a stretch tells
which of its characters are in comments.
-/

namespace StyleAudit

/-! ## Stretches -/

/-- What a piece is made of: the stretch of source text it stands for, which starts at the position
`start`. -/
inductive Stands : (stretch : List (Char × Bool)) → (start : Nat) → Source → Prop where
  /-- A dynamic piece is its source with the comments blanked. It starts at a character that is no
  blank and is not in a comment. -/
  | dynamic {slice : Code} (hfaithful : Faithful (.code slice none)) {c : Char}
      (hblank : isBlank c = false) (hsource : (codeText slice).head? = some c)
      (hshown : (codeText slice.blanked).head? = some c) (start : Nat) :
      Stands (codeTagged slice) start
        ⟨.dynamic, .dynamic slice.blanked.text start, start + slice.width⟩
  /-- The inside of a literal is taken as it is. -/
  | branch (text : List Char) (start : Nat) :
      Stands (untagged text) start ⟨.branch, .literal text start, start + text.length⟩
  /-- The text of a template is taken as it is. -/
  | template (text : List Char) (start : Nat) :
      Stands (untagged text) start ⟨.template, .literal text start, start + text.length⟩
  /-- An operand with quotes is its source without them, the comments blanked. -/
  | operand {slice : Code} (hfaithful : Faithful (.code slice none)) (start : Nat) :
      Stands (codeTagged slice) start
        ⟨.operand, .literal (slice.blanked.text.filter fun c => !isQuote c) start,
          start + slice.width⟩

/-- Sources that stand for stretches of a text which starts at the position `start`, one behind the
other in the order of the pieces. -/
inductive Layout : (text : List (Char × Bool)) → (start : Nat) → List Source → Prop where
  | none (text : List (Char × Bool)) (start : Nat) : Layout text start []
  | one {text : List (Char × Bool)} {start : Nat} {source : Source}
      (h : Stands text start source) : Layout text start [source]
  | append {a b : List (Char × Bool)} {start : Nat} {first second : List Source}
      (ha : Layout a start first) (hb : Layout b (start + a.length) second) :
      Layout (a ++ b) start (first ++ second)

namespace Layout

variable {text : List (Char × Bool)} {start : Nat} {sources : List Source}

/-- A second stretch at a position that turns out to be the one behind the first. -/
theorem append_at {a b : List (Char × Bool)} {place : Nat} {first second : List Source}
    (ha : Layout a start first) (hplace : start + a.length = place) (hb : Layout b place second) :
    Layout (a ++ b) start (first ++ second) := by
  subst hplace
  exact ha.append hb

/-- Text on both sides of a layout. -/
theorem within (before after : List (Char × Bool))
    (h : Layout text (start + before.length) sources) :
    Layout (before ++ text ++ after) start sources := by
  have hfront := (Layout.none before start).append h
  have hback := hfront.append (.none after (start + (before ++ text).length))
  rwa [List.nil_append, List.append_nil] at hback

theorem exists_of_mem {source : Source} (h : Layout text start sources) (hmem : source ∈ sources) :
    ∃ front stretch back, text = front ++ stretch ++ back
      ∧ Stands stretch (start + front.length) source := by
  induction h with
  | none => simp at hmem
  | one h =>
    obtain rfl := List.mem_singleton.mp hmem
    exact ⟨[], _, [], by simp, h⟩
  | @append a b start first second _ _ iha ihb =>
    rcases List.mem_append.mp hmem with hmem | hmem
    · obtain ⟨front, stretch, back, rfl, hstands⟩ := iha hmem
      exact ⟨front, stretch, back ++ b, by simp, hstands⟩
    · obtain ⟨front, stretch, back, rfl, hstands⟩ := ihb hmem
      refine ⟨a ++ front, stretch, back, by simp, ?_⟩
      rwa [List.length_append, ← Nat.add_assoc]

end Layout

/-! ## Stages -/

/-- The sources of a stage lie in its text. A stage has its comments blanked or has been cut out of
code where they are, and the text meant is that of the source. -/
def Stage.LaidOut : Stage → Prop
  | .expression shown => ∀ (code : Code) (start : Nat), code.blanked = shown.blanked →
      Faithful (.code code none) →
      Layout (codeTagged code) start ((Stage.expression shown).sources start)
  | .branch shown => ∀ (code : Code) (start : Nat), code.blanked = shown →
      Faithful (.code code none) →
        Layout (codeTagged code) start ((Stage.branch shown).sources start)
  | .operand shown => ∀ (code : Code) (start : Nat), code.blanked = shown →
      Faithful (.code code none) →
        Layout (codeTagged code) start ((Stage.operand shown).sources start)
  | .template parts => ∀ start, Faithful (.template parts (some backtick)) →
      Layout (partsTagged parts) start ((Stage.template parts).sources start)

theorem codeTagged_eq_nil {code : Code} (h : code.blanked = []) : codeTagged code = [] := by
  have hlength := length_codeTagged code
  rw [Code.width, codeText_eq_nil_of_blanked h] at hlength
  exact List.length_eq_zero_iff.mp hlength

section Cuts

variable {code : Code} {start : Nat} {sources : List Source}

/-- Trimmed code lies where its source does. It is enough to look at the source, which starts with a
lexeme that is neither blank nor a comment. -/
theorem layout_of_trim (htrim : code.blanked.trim ≠ []) (hfaithful : Faithful (.code code none))
    (h : ∀ first rest, Code.blanked (first :: rest) = code.blanked.trim →
      first.blanked = [first] → first.isBlank = false → Faithful (.code (first :: rest) none) →
      Layout (codeTagged (first :: rest)) (start + code.blanked.lead.width) sources) :
    Layout (codeTagged code) start sources := by
  obtain ⟨before, first, rest, after, rfl, hwidth, hblanked, hunit, hfirst⟩ :=
    exists_source_trim htrim
  have hslice := h first rest hblanked hunit hfirst
    (hfaithful.of_slice ⟨before, after, rfl⟩)
  rw [← hwidth, ← length_codeTagged] at hslice
  rw [codeTagged_append, codeTagged_append]
  exact hslice.within _ _

/-- Code of which a single unit is left stands for that unit. -/
theorem codeTagged_of_blanked_singleton {lexeme : Lexeme} (h : code.blanked = [lexeme])
    (hlexeme : lexeme.isBlank = false) : codeTagged code = lexeme.tagged := by
  obtain ⟨before, behind, rfl, hbefore, hbehind, -⟩ :=
    exists_source_append_cons (a := []) h hlexeme
  rw [codeTagged_append, codeTagged, codeTagged_eq_nil hbefore, codeTagged_eq_nil hbehind,
    List.nil_append, List.append_nil]

/-- Code in parentheses lies where its source does, inside the parentheses. -/
theorem layout_of_unwrap? {inner : Code} (hunwrap : code.blanked.unwrap? = some inner)
    (hfaithful : Faithful (.code code none))
    (h : ∀ source : Code, source.blanked = inner → Faithful (.code source none) →
      Layout (codeTagged source) (start + 1) sources) : Layout (codeTagged code) start sources := by
  obtain ⟨closer, hblanked, hclose, -⟩ := unwrap?_eq_some_iff.mp hunwrap
  have hcloser : Lexeme.isBlank (.char closer) = false := by
    by_contra hblank
    have hplain := (plain_of_isBlank (c := closer) (by simpa [Lexeme.isBlank] using hblank)).2
    simp [hclose] at hplain
  obtain ⟨before, rest, rfl, hbefore, hrest, -⟩ :=
    exists_source_append_cons (a := []) hblanked (by decide)
  obtain ⟨source, after, rfl, hsource, hafter, -⟩ := exists_source_append_cons hrest hcloser
  have hinside := h source hsource (hfaithful.of_slice ⟨before ++ [.char '('],
    .char closer :: after, by simp⟩)
  have hwithin := @Layout.within _ start _ (untagged ['('])
    (untagged [closer] ++ codeTagged after) hinside
  simpa [codeTagged_append, codeTagged, Lexeme.tagged, codeTagged_eq_nil hbefore] using hwithin

/-- What two lexemes of a conditional part lies where the sources of its branches do. -/
theorem layout_of_conditional? {cut : Code.Conditional} {yes no : List Source}
    (hcut : code.blanked.conditional? = some cut) (hfaithful : Faithful (.code code none))
    (hyes : ∀ source : Code, source.blanked = cut.yes → Faithful (.code source none) →
      Layout (codeTagged source) (start + cut.condition.width + 1) yes)
    (hno : ∀ source : Code, source.blanked = cut.no → Faithful (.code source none) →
      Layout (codeTagged source) (start + cut.condition.width + cut.yes.width + 2) no) :
    Layout (codeTagged code) start (yes ++ no) := by
  obtain ⟨condition, rest, rfl, hcondition, hrest, -⟩ :=
    exists_source_append_cons (conditional?_eq hcut) (by decide)
  obtain ⟨first, second, rfl, hfirst, hsecond, -⟩ := exists_source_append_cons hrest (by decide)
  have hlayoutYes := hyes first hfirst (hfaithful.of_slice ⟨condition ++ [.char '?'],
    .char ':' :: second, by simp⟩)
  have hlayoutNo := hno second hsecond (hfaithful.of_slice ⟨condition ++ .char '?' :: first ++
    [.char ':'], [], by simp⟩)
  rw [← hcondition, Code.width_blanked] at hlayoutYes hlayoutNo
  rw [← hfirst, Code.width_blanked] at hlayoutNo
  have hfront := @Layout.within _ start _ (codeTagged condition ++ untagged ['?']) (untagged [':'])
    (by simpa [length_codeTagged, Nat.add_assoc] using hlayoutYes)
  -- the two marks are the two characters that are no part of the condition and its branch
  have hplace : start + (codeTagged condition ++ untagged ['?'] ++ codeTagged first
      ++ untagged [':']).length = start + condition.width + first.width + 2 := by
    simp only [List.length_append, length_untagged, length_codeTagged, List.length_singleton]
    omega
  simpa [codeTagged_append, codeTagged, Lexeme.tagged] using hfront.append_at hplace hlayoutNo

/-- The operands of a sum lie where their sources do, each behind the plus sign that follows the one
before. -/
theorem layout_of_sum {operands : List Code}
    (hsum : code.blanked = [.char '+'].intercalate operands)
    (hfaithful : Faithful (.code code none))
    (h : ∀ operand ∈ operands, ∀ (source : Code) (place : Nat), source.blanked = operand →
      Faithful (.code source none) →
      Layout (codeTagged source) place ((Stage.operand operand).sources place)) :
    Layout (codeTagged code) start
      ((placed start operands).flatMap fun entry => (Stage.operand entry.2).sources entry.1) := by
  induction operands generalizing code start with
  | nil => exact .none _ _
  | cons operand operands ih =>
    rw [placed, List.flatMap_cons]
    cases operands with
    | nil =>
      rw [placed, List.flatMap_nil, List.append_nil]
      exact h operand List.mem_cons_self code start (by simpa using hsum) hfaithful
    | cons next operands =>
      have hcut : code.blanked
          = operand ++ .char '+' :: [.char '+'].intercalate (next :: operands) := by
        rw [hsum, List.intercalate_cons_cons, List.append_assoc, List.singleton_append]
      obtain ⟨first, rest, rfl, hfirst, hrest, -⟩ := exists_source_append_cons hcut (by decide)
      have hfirstLayout := h operand List.mem_cons_self first start hfirst
        (hfaithful.of_slice ⟨[], .char '+' :: rest, by simp⟩)
      have hrestLayout := @ih rest (start + operand.width + 1) hrest
        (hfaithful.of_slice ⟨first ++ [.char '+'], [], by simp⟩)
        fun operand hmem => h operand (List.mem_cons_of_mem _ hmem)
      have hfront := @Layout.within _ start _ [] (untagged ['+']) hfirstLayout
      rw [List.nil_append] at hfront
      have hplace : start + (codeTagged first ++ untagged ['+']).length
          = start + operand.width + 1 := by
        rw [← hfirst, Code.width_blanked, List.length_append, length_untagged, length_codeTagged,
          List.length_singleton]
        omega
      simpa [codeTagged_append, codeTagged, Lexeme.tagged] using
        hfront.append_at hplace hrestLayout

end Cuts

/-- The stretches of a template that is read from `start` on, `done` in front, lie where they
stand. -/
theorem layout_of_spans {start : Nat} {done : List Char} {parts : List Part}
    (hdone : done.length ≤ start)
    (h : ∀ code closer, .hole code closer ∈ parts → ∀ place,
      Layout (codeTagged code) place ((Stage.expression code).sources place)) :
    Layout (untagged done.reverse ++ partsTagged parts) (start - done.length)
      ((spans start done parts).flatMap fun
        | .text chars place => [⟨.template, .literal chars place, place + chars.length⟩]
        | .hole code place => (Stage.expression code).sources place) := by
  fun_induction spans start done parts with
  | case1 start done =>
    rw [partsTagged, List.append_nil]
    exact .one (.template _ _)
  | case2 start done c parts ih =>
    have hlayout := ih (by simpa using hdone) fun code closer hmem =>
      h code closer (List.mem_cons_of_mem _ hmem)
    simpa [partsTagged, Part.tagged, untagged] using hlayout
  | case3 start done code closer parts ih =>
    have hrest := ih (Nat.zero_le _) fun code closer hmem =>
      h code closer (List.mem_cons_of_mem _ hmem)
    have hhole := @Layout.within _ start _ (untagged ['$', '\x7b']) (untagged [closer])
      (h code closer List.mem_cons_self (start + 2))
    have hwidth : (untagged ['$', '\x7b'] ++ codeTagged code ++ untagged [closer]).length
        = (Part.hole code closer).text.length := by
      rw [← (Part.hole code closer).map_fst_tagged, List.length_map]
      rfl
    have hboth := hhole.append_at (by rw [hwidth, List.length_nil, Nat.sub_zero]) hrest
    have hplace : start - done.length + (untagged done.reverse).length = start := by
      rw [length_untagged, List.length_reverse]
      omega
    simpa [partsTagged, Part.tagged] using
      (Layout.one (Stands.template done.reverse _)).append_at hplace hboth

/-! ## Every stage -/

/-- Faithful code that starts with neither a blank nor a comment starts with the same character,
which is no blank, once its comments are blanked. -/
theorem exists_head_of_unit {first : Lexeme} {rest : Code} (hunit : first.blanked = [first])
    (hfirst : first.isBlank = false) (hfaithful : Faithful (.code (first :: rest) none)) :
    ∃ c, isBlank c = false ∧ (codeText (first :: rest)).head? = some c
      ∧ (codeText (Code.blanked (first :: rest))).head? = some c := by
  rw [blanked_cons, hunit, List.singleton_append]
  cases first with
  | char c => exact ⟨c, hfirst, rfl, rfl⟩
  | comment text => cases text <;> simp [Lexeme.blanked] at hunit
  | literal quote body =>
    have hquote := (faithful_cons.mp hfaithful).1.1
    exact ⟨quote, quote_not_blank hquote.isQuote, rfl, rfl⟩
  | template parts => exact ⟨backtick, quote_not_blank isQuote_backtick, rfl, rfl⟩

theorem layout_of_dynamic {code : Code} (start : Nat) (htrim : code.blanked.trim ≠ [])
    (hfaithful : Faithful (.code code none)) :
    Layout (codeTagged code) start
      [⟨.dynamic, .dynamic code.blanked.trim.text (start + code.blanked.lead.width),
        start + code.blanked.lead.width + code.blanked.trim.width⟩] := by
  refine layout_of_trim htrim hfaithful fun first rest hblanked hunit hfirst hslice => ?_
  obtain ⟨c, hblank, hsource, hshown⟩ := exists_head_of_unit hunit hfirst hslice
  rw [← hblanked, Code.width_blanked]
  exact .one (.dynamic hslice hblank hsource hshown _)

theorem layout_of_template {code : Code} {parts : List Part} (start : Nat)
    (htrim : code.blanked.trim = [.template parts]) (hfaithful : Faithful (.code code none))
    (h : Stage.LaidOut (.template parts)) :
    Layout (codeTagged code) start
      ((Stage.template parts).sources (start + code.blanked.lead.width + 1)) := by
  refine layout_of_trim (by simp [htrim]) hfaithful fun first rest hblanked _ _ hslice => ?_
  rw [htrim] at hblanked
  rw [codeTagged_of_blanked_singleton hblanked rfl]
  have hsole : Faithful (.code [.template parts] none) := hblanked ▸ hslice.blanked
  exact @Layout.within _ _ _ (untagged [backtick]) (untagged [backtick])
    (h _ (faithful_cons.mp hsole).1)

theorem layout_of_literal {code : Code} {quote : Char} {text : List Char} (start : Nat)
    (htrim : code.blanked.trim = [.literal quote text]) (hfaithful : Faithful (.code code none)) :
    Layout (codeTagged code) start
      [⟨.branch, .literal text (start + code.blanked.lead.width + 1),
        start + code.blanked.lead.width + 1 + text.length⟩] := by
  refine layout_of_trim (by simp [htrim]) hfaithful fun first rest hblanked _ _ _ => ?_
  rw [htrim] at hblanked
  rw [codeTagged_of_blanked_singleton hblanked rfl]
  have hinside := @Layout.within _ (start + code.blanked.lead.width) _ (untagged [quote])
    (untagged [quote]) (.one (.branch text _))
  simpa [Lexeme.tagged, untagged] using hinside

theorem layout_of_group {code inner : Code} (start : Nat)
    (hunwrap : code.blanked.trim.unwrap? = some inner) (hfaithful : Faithful (.code code none))
    (h : Stage.LaidOut (.expression inner)) :
    Layout (codeTagged code) start
      ((Stage.expression inner).sources (start + code.blanked.lead.width + 1)) := by
  have htrim : code.blanked.trim ≠ [] := (ne_quoted_of_unwrap? hunwrap).1
  refine layout_of_trim htrim hfaithful fun first rest hblanked _ _ hslice => ?_
  refine layout_of_unwrap? (hblanked ▸ hunwrap) hslice fun source hsource hfaithful => ?_
  refine h source _ ?_ hfaithful
  rw [← hsource, blanked_blanked]

/-- What a stage gives lies where it stands, if that holds of what it enters. -/
theorem Stage.laidOut (stage : Stage) : stage.LaidOut := by
  induction stage using Stage.induction with
  | step stage ih =>
    cases stage with
    | expression shown =>
      intro code start hshown hfaithful
      by_cases htrim : code.blanked.trim = []
      · have hnone := (Stage.expression shown).map_piece_sources start
        rw [Stage.pieces, pieces_of_nil start (hshown ▸ htrim), List.map_eq_nil_iff] at hnone
        rw [hnone]
        exact .none _ _
      · refine layout_of_trim htrim hfaithful fun first rest hblanked _ _ hslice => ?_
        rw [sources_expression, ← hshown]
        cases hcut : code.blanked.trim.conditional? with
        | some cut =>
          refine layout_of_conditional? (hblanked ▸ hcut) hslice ?_ ?_
          · intro source hsource hfaithful
            exact ih _ (.yes (hshown ▸ hcut)) source _ hsource hfaithful
          · intro source hsource hfaithful
            exact ih _ (.no (hshown ▸ hcut)) source _ hsource hfaithful
        | none =>
          refine layout_of_sum (hblanked.trans (intercalate_operands _).symm) hslice ?_
          intro operand hmem source place hsource hfaithful
          exact ih _ (.summand (hshown ▸ hcut) (hshown ▸ hmem)) source place hsource hfaithful
    | branch shown =>
      intro code start hshown hfaithful
      subst hshown
      rw [sources_branch]
      split
      · exact .none _ _
      · next parts htrim =>
        exact layout_of_template start htrim hfaithful (ih _ (.branchTemplate htrim))
      · next quote text htrim => exact layout_of_literal start htrim hfaithful
      · next hnil _ _ =>
        split
        · next inner hunwrap =>
          exact layout_of_group start hunwrap hfaithful (ih _ (.branchGroup hunwrap))
        · split
          · next hcut =>
            refine layout_of_trim hnil hfaithful fun first rest hblanked _ _ hslice => ?_
            refine ih _ (.branchConditional hcut) (first :: rest) _ ?_ hslice
            rw [← hblanked, blanked_blanked]
          · exact layout_of_dynamic start hnil hfaithful
    | operand shown =>
      intro code start hshown hfaithful
      subst hshown
      rw [sources_operand]
      split
      · exact .none _ _
      · next parts htrim =>
        exact layout_of_template start htrim hfaithful (ih _ (.operandTemplate htrim))
      · next hnil _ =>
        split
        · next inner hunwrap =>
          exact layout_of_group start hunwrap hfaithful (ih _ (.operandGroup hunwrap))
        · split
          · refine layout_of_trim hnil hfaithful fun first rest hblanked _ _ hslice => ?_
            rw [← hblanked, Code.width_blanked]
            exact .one (.operand hslice _)
          · exact layout_of_dynamic start hnil hfaithful
    | template parts =>
      intro start hfaithful
      rw [sources_template]
      refine @layout_of_spans start [] parts (Nat.zero_le start) fun code closer hmem place => ?_
      exact ih _ (.hole hmem) code place rfl (enclosed_of_hole hfaithful hmem).faithful.at_end

/-- The sources of an expression are stretches of its text, one behind the other. -/
theorem sources_layout {code : Code} (start : Nat) (hfaithful : Faithful (.code code none)) :
    Layout (codeTagged code) start ((Stage.expression code).sources start) :=
  (Stage.expression code).laidOut code start rfl hfaithful

/-- Where a dynamic piece of an expression starts, a slice of the expression does. -/
theorem exists_slice_of_dynamic_mem {code : Code} {chars : List Char} {start : Nat}
    (hfaithful : Faithful (.code code none)) (hmem : .dynamic chars start ∈ pieces 0 code) :
    ∃ (front : List Char) (slice : Code) (rest : List Char) (c : Char),
      codeText code = front ++ codeText slice ++ rest ∧ Faithful (.code slice none)
        ∧ isBlank c = false ∧ (codeText slice).head? = some c
        ∧ (codeText slice.blanked).head? = some c ∧ chars = slice.blanked.text
        ∧ start = front.length := by
  have hpieces := (Stage.expression code).map_piece_sources 0
  rw [Stage.pieces] at hpieces
  rw [← hpieces] at hmem
  obtain ⟨source, hsource, hpiece⟩ := List.mem_map.mp hmem
  obtain ⟨front, stretch, rest, htext, hstands⟩ :=
    (sources_layout 0 hfaithful).exists_of_mem hsource
  have hcode := congrArg (List.map Prod.fst) htext
  rw [List.map_append, List.map_append, map_fst_codeTagged] at hcode
  cases hstands with
  | @dynamic slice hslice c hblank hhead hshown =>
    rw [map_fst_codeTagged] at hcode
    cases hpiece
    exact ⟨_, slice, _, c, hcode, hslice, hblank, hhead, hshown, rfl, by simp⟩
  | _ => cases hpiece

end StyleAudit
