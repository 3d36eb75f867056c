import StyleAudit.Proofs.Expression.Shift

/-!
# What pieces are made from

`pieces` says where a piece starts and not what it was taken from. `Stage.sources` goes the same way
and keeps with every piece the rule that gave it and the position where its source ends. Without
these it is the list of pieces (`Stage.map_piece_sources`).
-/

namespace StyleAudit

/-- The rule that gives a piece. -/
inductive Origin where
  /-- A branch or an operand that only a person can judge. -/
  | dynamic
  /-- The inside of a literal that is a branch of a conditional. -/
  | branch
  /-- A stretch of a template's own text. -/
  | template
  /-- An operand with a quote in it. -/
  | operand
deriving DecidableEq, Repr

/-- The position a piece starts at. -/
def Piece.start : Piece → Nat
  | .literal _ start | .dynamic _ start => start

/-- A piece with its origin and the position behind its source. -/
structure Source where
  origin : Origin
  piece : Piece
  stop : Nat
deriving DecidableEq, Repr

namespace Stage

/-- The pieces that a stage gives where it starts, each with its source. -/
def sources (start : Nat) (stage : Stage) : List Source :=
  match stage with
  | .expression code =>
    let place := start + code.blanked.lead.width
    match _hcut : code.blanked.trim.conditional? with
    | some cut =>
      sources (place + cut.condition.width + 1) (.branch cut.yes)
        ++ sources (place + cut.condition.width + cut.yes.width + 2) (.branch cut.no)
    | none =>
      (placed place code.blanked.trim.operands).attach.flatMap fun entry =>
        sources entry.1.1 (.operand entry.1.2)
  | .branch code =>
    let place := start + code.lead.width
    match _htrim : code.trim with
    | [] => []
    | [.template parts] => sources (place + 1) (.template parts)
    | [.literal _ text] => [⟨.branch, .literal text (place + 1), place + 1 + text.length⟩]
    | body =>
      match _hunwrap : body.unwrap? with
      | some inner => sources (place + 1) (.expression inner)
      | none =>
        if _hchoice : body.conditional?.isSome then sources place (.expression body)
        else [⟨.dynamic, .dynamic body.text place, place + body.width⟩]
  | .operand code =>
    let place := start + code.lead.width
    match _htrim : code.trim with
    | [] => []
    | [.template parts] => sources (place + 1) (.template parts)
    | body =>
      match _hunwrap : body.unwrap? with
      | some inner => sources (place + 1) (.expression inner)
      | none =>
        if body.any Lexeme.isQuoted then
          [⟨.operand, .literal (body.text.filter fun c => !isQuote c) place, place + body.width⟩]
        else [⟨.dynamic, .dynamic body.text place, place + body.width⟩]
  | .template parts =>
    (spans start [] parts).attach.flatMap fun
      | ⟨.text chars place, _⟩ => [⟨.template, .literal chars place, place + chars.length⟩]
      | ⟨.hole code place, _⟩ => sources place (.expression code)
termination_by stage.rank
decreasing_by
  · exact Enters.rank_lt (.yes _hcut)
  · exact Enters.rank_lt (.no _hcut)
  · exact Enters.rank_lt (.summand _hcut (Code.mem_of_mem_placed entry.2))
  · exact Enters.rank_lt (.branchTemplate _htrim)
  · exact Enters.rank_lt (.branchGroup (_htrim ▸ _hunwrap))
  · rw [← _htrim] at _hchoice ⊢
    exact Enters.rank_lt (.branchConditional _hchoice)
  · exact Enters.rank_lt (.operandTemplate _htrim)
  · exact Enters.rank_lt (.operandGroup (_htrim ▸ _hunwrap))
  · obtain ⟨closer, hole⟩ := hole_mem_of_mem_spans ‹_›
    exact Enters.rank_lt (.hole hole)

/-! ## Equations -/

section Equations

variable (start : Nat)

theorem sources_expression (code : Code) :
    sources start (.expression code) =
      match code.blanked.trim.conditional? with
      | some cut =>
        sources (start + code.blanked.lead.width + cut.condition.width + 1) (.branch cut.yes)
          ++ sources (start + code.blanked.lead.width + cut.condition.width + cut.yes.width + 2)
            (.branch cut.no)
      | none =>
        (placed (start + code.blanked.lead.width) code.blanked.trim.operands).flatMap
          fun entry => sources entry.1 (.operand entry.2) := by
  rw [sources]
  split
  · next heq => simp only [heq]
  · next heq =>
    simp only [heq]
    rw [List.flatMap_subtype (g := fun entry => sources entry.1 (.operand entry.2)) fun _ _ => rfl,
      List.unattach_attach]

theorem sources_branch (code : Code) :
    sources start (.branch code) =
      match code.trim with
      | [] => []
      | [.template parts] => sources (start + code.lead.width + 1) (.template parts)
      | [.literal _ text] =>
        [⟨.branch, .literal text (start + code.lead.width + 1),
          start + code.lead.width + 1 + text.length⟩]
      | _ =>
        match code.trim.unwrap? with
        | some inner => sources (start + code.lead.width + 1) (.expression inner)
        | none =>
          if code.trim.conditional?.isSome then
            sources (start + code.lead.width) (.expression code.trim)
          else
            [⟨.dynamic, .dynamic code.trim.text (start + code.lead.width),
              start + code.lead.width + code.trim.width⟩] := by
  conv_lhs => rw [sources]
  split <;> simp_all
  split <;> simp_all

theorem sources_operand (code : Code) :
    sources start (.operand code) =
      match code.trim with
      | [] => []
      | [.template parts] => sources (start + code.lead.width + 1) (.template parts)
      | _ =>
        match code.trim.unwrap? with
        | some inner => sources (start + code.lead.width + 1) (.expression inner)
        | none =>
          if code.trim.any Lexeme.isQuoted then
            [⟨.operand, .literal (code.trim.text.filter fun c => !isQuote c)
              (start + code.lead.width), start + code.lead.width + code.trim.width⟩]
          else
            [⟨.dynamic, .dynamic code.trim.text (start + code.lead.width),
              start + code.lead.width + code.trim.width⟩] := by
  conv_lhs => rw [sources]
  split <;> simp_all
  split <;> simp_all

theorem sources_template (parts : List Part) :
    sources start (.template parts) = (spans start [] parts).flatMap fun
      | .text chars place => [⟨.template, .literal chars place, place + chars.length⟩]
      | .hole code place => sources place (.expression code) := by
  rw [sources, List.flatMap_subtype, List.unattach_attach]
  rintro (⟨chars, place⟩ | ⟨code, place⟩) _ <;> rfl

end Equations

/-- Without their origins the sources are the pieces. -/
theorem map_piece_sources (start : Nat) (stage : Stage) :
    (stage.sources start).map Source.piece = stage.pieces start := by
  induction stage using Stage.induction generalizing start with
  | step stage ih =>
    cases stage with
    | expression code =>
      rw [sources_expression, Stage.pieces, pieces_eq]
      cases hcut : code.blanked.trim.conditional? with
      | some cut =>
        rw [List.map_append, ih _ (.yes hcut), ih _ (.no hcut)]
        rfl
      | none =>
        rw [List.map_flatMap]
        refine List.flatMap_congr fun entry hentry => ?_
        exact ih _ (.summand hcut (Code.mem_of_mem_placed hentry)) entry.1
    | branch code =>
      rw [sources_branch, Stage.pieces]
      split
      · next htrim => exact (branchPieces_of_nil start htrim).symm
      · next parts htrim =>
        rw [branchPieces_of_template start htrim]
        exact ih _ (.branchTemplate htrim) _
      · next quote text htrim => exact (branchPieces_of_literal start htrim).symm
      · next hnil htemplate hliteral =>
        split
        · next inner hunwrap =>
          rw [branchPieces_of_group start hunwrap]
          exact ih _ (.branchGroup hunwrap) _
        · next hunwrap =>
          split
          · next hchoice =>
            rw [branchPieces_of_conditional start hunwrap hchoice]
            exact ih _ (.branchConditional hchoice) _
          · next hchoice =>
            have hquoted := isQuoted_of_sole htemplate hliteral
            exact (branchPieces_of_dynamic start hnil hquoted hunwrap (by simpa using hchoice)).symm
    | operand code =>
      rw [sources_operand, Stage.pieces]
      split
      · next htrim => exact (operandPieces_of_nil start htrim).symm
      · next parts htrim =>
        rw [operandPieces_eq, htrim]
        exact ih _ (.operandTemplate htrim) _
      · next hnil htemplate =>
        split
        · next inner hunwrap =>
          rw [operandPieces_of_group start hunwrap]
          exact ih _ (.operandGroup hunwrap) _
        · next hunwrap =>
          rw [operandPieces_of_plain start hnil htemplate hunwrap]
          split <;> rfl
    | template parts =>
      rw [sources_template, Stage.pieces, templatePieces_eq, List.map_flatMap]
      refine List.flatMap_congr fun span hspan => ?_
      cases span with
      | text chars place => rfl
      | hole code place =>
        obtain ⟨closer, hhole⟩ := hole_mem_of_mem_spans hspan
        exact ih _ (.hole hhole) place

end Stage

end StyleAudit
