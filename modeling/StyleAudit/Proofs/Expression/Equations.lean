import StyleAudit.Expression
import StyleAudit.Proofs.Code.Faithful

/-!
# Equations for the pieces of an expression

`pieces` and its companions recurse on the width of code, so they are used through the equations
here, one for each form that a branch, an operand or a template can have. `interpret?_text` is the
equation for the whole: faithful code is interpreted from its text.
-/

namespace StyleAudit

theorem pieces_eq (start : Nat) (code : Code) :
    pieces start code =
      match code.blanked.trim.conditional? with
      | some cut =>
        branchPieces (start + code.blanked.lead.width + cut.condition.width + 1) cut.yes
          ++ branchPieces (start + code.blanked.lead.width + cut.condition.width
            + cut.yes.width + 2) cut.no
      | none =>
        (placed (start + code.blanked.lead.width) code.blanked.trim.operands).flatMap
          fun entry => operandPieces entry.1 entry.2 := by
  rw [pieces]
  split
  · next heq => simp only [heq]
  · next heq =>
    simp only [heq]
    rw [List.flatMap_subtype (g := fun entry => operandPieces entry.1 entry.2) fun _ _ => rfl,
      List.unattach_attach]

theorem templatePieces_eq (start : Nat) (parts : List Part) :
    templatePieces start parts = (spans start [] parts).flatMap fun
      | .text chars start => [.literal chars start]
      | .hole code start => pieces start code := by
  rw [templatePieces, List.flatMap_subtype, List.unattach_attach]
  rintro (⟨chars, start⟩ | ⟨code, start⟩) _ <;> rfl

theorem branchPieces_eq (start : Nat) (code : Code) :
    branchPieces start code =
      match code.trim with
      | [] => []
      | [.template parts] => templatePieces (start + code.lead.width + 1) parts
      | [.literal _ text] => [.literal text (start + code.lead.width + 1)]
      | _ =>
        match code.trim.unwrap? with
        | some inner => pieces (start + code.lead.width + 1) inner
        | none =>
          if code.trim.conditional?.isSome then pieces (start + code.lead.width) code.trim
          else [.dynamic code.trim.text (start + code.lead.width)] := by
  rw [branchPieces]
  split <;> simp_all
  split <;> simp_all

theorem operandPieces_eq (start : Nat) (code : Code) :
    operandPieces start code =
      match code.trim with
      | [] => []
      | [.template parts] => templatePieces (start + code.lead.width + 1) parts
      | _ =>
        match code.trim.unwrap? with
        | some inner => pieces (start + code.lead.width + 1) inner
        | none =>
          if code.trim.any Lexeme.isQuoted then
            [.literal (code.trim.text.filter fun c => !isQuote c) (start + code.lead.width)]
          else [.dynamic code.trim.text (start + code.lead.width)] := by
  rw [operandPieces]
  split <;> simp_all
  split <;> simp_all

/-! ## Branches -/

section Branch

variable {code : Code} (start : Nat)

theorem branchPieces_of_nil (h : code.trim = []) : branchPieces start code = [] := by
  simp only [branchPieces_eq, h]

theorem branchPieces_of_template {parts : List Part} (h : code.trim = [.template parts]) :
    branchPieces start code = templatePieces (start + code.lead.width + 1) parts := by
  simp only [branchPieces_eq, h]

theorem branchPieces_of_literal {quote : Char} {text : List Char}
    (h : code.trim = [.literal quote text]) :
    branchPieces start code = [.literal text (start + code.lead.width + 1)] := by
  simp only [branchPieces_eq, h]

/-- A parenthesis at the front tells a group from a quoted unit. -/
theorem ne_quoted_of_unwrap? {body inner : Code} (h : body.unwrap? = some inner) :
    body ≠ [] ∧ (∀ parts, body ≠ [.template parts])
      ∧ ∀ quote text, body ≠ [.literal quote text] := by
  refine ⟨?_, ?_, ?_⟩
  · intro hbody
    subst hbody
    cases h
  · intro parts hbody
    subst hbody
    cases h
  · intro quote text hbody
    subst hbody
    cases h

theorem branchPieces_of_group {inner : Code} (h : code.trim.unwrap? = some inner) :
    branchPieces start code = pieces (start + code.lead.width + 1) inner := by
  obtain ⟨hnil, htemplate, hliteral⟩ := ne_quoted_of_unwrap? h
  rw [branchPieces_eq]
  split
  · next heq => exact absurd heq hnil
  · next heq => exact absurd heq (htemplate _)
  · next heq => exact absurd heq (hliteral _ _)
  · split
    · next heq =>
      obtain rfl := Option.some.inj (h.symm.trans heq)
      rfl
    · next heq => simp [h] at heq

/-- A conditional has a question mark among its lexemes, so it is no quoted unit. -/
theorem branchPieces_of_conditional (hunwrap : code.trim.unwrap? = none)
    (h : code.trim.conditional?.isSome = true) :
    branchPieces start code = pieces (start + code.lead.width) code.trim := by
  rw [branchPieces_eq]
  split
  · next heq => simp [heq, Code.conditional?, Code.flagged, Code.cutConditional] at h
  · next heq => simp [heq, Code.conditional?, Code.flagged, Code.cutConditional] at h
  · next heq => simp [heq, Code.conditional?, Code.flagged, Code.cutConditional] at h
  · split
    · next heq => simp [hunwrap] at heq
    · rw [if_pos h]

theorem branchPieces_of_dynamic (hnil : code.trim ≠ [])
    (hquoted : ∀ lexeme, code.trim = [lexeme] → lexeme.isQuoted = false)
    (hunwrap : code.trim.unwrap? = none) (h : code.trim.conditional? = none) :
    branchPieces start code = [.dynamic code.trim.text (start + code.lead.width)] := by
  rw [branchPieces_eq]
  split
  · next heq => exact absurd heq hnil
  · next heq => simpa [Lexeme.isQuoted] using hquoted _ heq
  · next heq => simpa [Lexeme.isQuoted] using hquoted _ heq
  · split
    · next heq => simp [hunwrap] at heq
    · rw [if_neg (by simp [h])]

end Branch

/-- Code that is neither a template nor a literal is no single quoted unit. -/
theorem isQuoted_of_sole {body : Code} (htemplate : ∀ parts, body ≠ [.template parts])
    (hliteral : ∀ quote text, body ≠ [.literal quote text]) (lexeme : Lexeme)
    (hsole : body = [lexeme]) : lexeme.isQuoted = false := by
  cases lexeme with
  | template parts => exact absurd hsole (htemplate parts)
  | literal quote text => exact absurd hsole (hliteral quote text)
  | _ => rfl

/-! ## Operands -/

section Operand

variable {code : Code} (start : Nat)

theorem operandPieces_of_nil (h : code.trim = []) : operandPieces start code = [] := by
  simp only [operandPieces_eq, h]

theorem operandPieces_of_template {parts : List Part} (h : code.trim = [.template parts]) :
    operandPieces start code = templatePieces (start + code.lead.width + 1) parts := by
  simp only [operandPieces_eq, h]

theorem operandPieces_of_group {inner : Code} (h : code.trim.unwrap? = some inner) :
    operandPieces start code = pieces (start + code.lead.width + 1) inner := by
  obtain ⟨hnil, htemplate, -⟩ := ne_quoted_of_unwrap? h
  rw [operandPieces_eq]
  split
  · next heq => exact absurd heq hnil
  · next heq => exact absurd heq (htemplate _)
  · split
    · next heq =>
      obtain rfl := Option.some.inj (h.symm.trans heq)
      rfl
    · next heq => simp [h] at heq

/-- An operand that is neither a template nor in parentheses: with a quoted unit in it, it is
literal, otherwise dynamic. -/
theorem operandPieces_of_plain (hnil : code.trim ≠ [])
    (htemplate : ∀ parts, code.trim ≠ [.template parts]) (hunwrap : code.trim.unwrap? = none) :
    operandPieces start code =
      if code.trim.any Lexeme.isQuoted then
        [.literal (code.trim.text.filter fun c => !isQuote c) (start + code.lead.width)]
      else [.dynamic code.trim.text (start + code.lead.width)] := by
  rw [operandPieces_eq]
  split
  · next heq => exact absurd heq hnil
  · next heq => exact absurd heq (htemplate _)
  · split
    · next heq => simp [hunwrap] at heq
    · rfl

end Operand

/-- Blanks and comments alone have no pieces. -/
theorem pieces_of_nil {code : Code} (start : Nat) (h : code.blanked.trim = []) :
    pieces start code = [] := by
  rw [pieces_eq, h]
  show operandPieces _ [] ++ [] = []
  rw [operandPieces_of_nil _ rfl, List.append_nil]

/-- Faithful code can be interpreted from its text. -/
theorem interpret?_text {code : Code} (h : Faithful (.code code none)) (line : Int)
    (path : String) : interpret? code.text line path = .ok (occurrencesIn line path code) := by
  rw [interpret?, h.ofText?_text]

end StyleAudit
