import StyleAudit.Proofs.Code.Marks
import StyleAudit.Proofs.Expression.Equations

/-!
# Blanks around expressions

Blanks in front of a branch or an operand only move its pieces, and blanks behind it do nothing
(`branchPieces_padded`, `operandPieces_padded`). So the trimming that `pieces` does before it cuts
is redundant: `pieces_eq_untrimmed` cuts the code as it stands, blanks included.
-/

namespace StyleAudit

/-! ## Trimming -/

section Trim

variable {before after : List Char}

theorem isBlank_of_mem_asCode (h : ∀ c ∈ before, isBlank c = true) :
    ∀ lexeme ∈ asCode before, lexeme.isBlank = true := by
  intro lexeme hmem
  obtain ⟨c, hc, rfl⟩ := List.mem_map.1 hmem
  exact h c hc

theorem trim_blank_append (h : ∀ c ∈ before, isBlank c = true) (code : Code) :
    Code.trim (asCode before ++ code) = code.trim := by
  unfold Code.trim
  rw [List.dropWhile_append_of_pos (isBlank_of_mem_asCode h)]

theorem lead_blank_append (h : ∀ c ∈ before, isBlank c = true) (code : Code) :
    Code.lead (asCode before ++ code) = asCode before ++ code.lead := by
  unfold Code.lead
  rw [List.takeWhile_append_of_pos (isBlank_of_mem_asCode h)]

theorem trim_append_blank (h : ∀ c ∈ after, isBlank c = true) (code : Code) :
    Code.trim (code ++ asCode after) = code.trim := by
  have hreverse : ∀ lexeme ∈ (asCode after).reverse, lexeme.isBlank = true := fun lexeme hmem =>
    isBlank_of_mem_asCode h lexeme (List.mem_reverse.1 hmem)
  unfold Code.trim
  rw [List.dropWhile_append]
  split
  · next hnil =>
    -- nothing but blanks
    have hdrop : (asCode after ++ []).dropWhile Lexeme.isBlank = [] := by
      rw [List.dropWhile_append_of_pos (isBlank_of_mem_asCode h), List.dropWhile_nil]
    rw [List.append_nil] at hdrop
    rw [List.isEmpty_iff.1 hnil, hdrop]
  · rw [List.reverse_append, List.dropWhile_append_of_pos hreverse]

theorem lead_append_blank {code : Code} (hcode : code.trim ≠ []) :
    Code.lead (code ++ asCode after) = code.lead := by
  unfold Code.lead
  rw [List.takeWhile_append]
  split
  · next hfull =>
    -- nothing would be left of blanks alone
    have hall : code.takeWhile Lexeme.isBlank = code :=
      (List.takeWhile_prefix _).eq_of_length hfull
    have hsplit := List.takeWhile_append_dropWhile (p := Lexeme.isBlank) (l := code)
    rw [hall, List.append_right_eq_self] at hsplit
    exact absurd (by rw [Code.trim, hsplit]; rfl) hcode
  · rfl

theorem nil_blank : ∀ c ∈ ([] : List Char), isBlank c = true := by
  simp

theorem trim_padded (hbefore : ∀ c ∈ before, isBlank c = true)
    (hafter : ∀ c ∈ after, isBlank c = true) (code : Code) :
    Code.trim (asCode before ++ (code ++ asCode after)) = code.trim := by
  rw [trim_blank_append hbefore, trim_append_blank hafter]

theorem lead_padded {code : Code} (hbefore : ∀ c ∈ before, isBlank c = true)
    (hcode : code.trim ≠ []) :
    Code.lead (asCode before ++ (code ++ asCode after)) = asCode before ++ code.lead := by
  rw [lead_blank_append hbefore, lead_append_blank hcode]

theorem exists_asCode {code : Code} (h : ∀ lexeme ∈ code, lexeme.isBlank = true) :
    ∃ text, (∀ c ∈ text, isBlank c = true) ∧ code = asCode text := by
  induction code with
  | nil => exact ⟨[], by simp, rfl⟩
  | cons lexeme code ih =>
    obtain ⟨text, htext, rfl⟩ := ih fun other hmem => h other (List.mem_cons_of_mem _ hmem)
    have hlexeme := h lexeme List.mem_cons_self
    cases lexeme with
    | char c =>
      refine ⟨c :: text, ?_, rfl⟩
      intro d hd
      rcases List.mem_cons.1 hd with rfl | hd
      · exact hlexeme
      · exact htext d hd
    | _ => cases hlexeme

/-- Code is blanks, what trimming leaves of it, and blanks. -/
theorem exists_padding (code : Code) : ∃ before after : List Char,
    (∀ c ∈ before, isBlank c = true) ∧ (∀ c ∈ after, isBlank c = true)
      ∧ code.lead = asCode before ∧ code = asCode before ++ code.trim ++ asCode after := by
  obtain ⟨before, hbefore, hlead⟩ := @exists_asCode code.lead fun lexeme hmem =>
    List.all_eq_true.1 List.all_takeWhile lexeme hmem
  have htail : ∀ lexeme ∈
      ((code.dropWhile Lexeme.isBlank).reverse.takeWhile Lexeme.isBlank).reverse,
      lexeme.isBlank = true := fun lexeme hmem =>
    List.all_eq_true.1 List.all_takeWhile lexeme (List.mem_reverse.1 hmem)
  obtain ⟨after, hafter, hback⟩ := exists_asCode htail
  refine ⟨before, after, hbefore, hafter, hlead, ?_⟩
  rw [← hlead, ← hback, Code.trim, List.append_assoc, ← List.reverse_append,
    List.takeWhile_append_dropWhile, List.reverse_reverse, Code.lead,
    List.takeWhile_append_dropWhile]

end Trim

/-! ## Branches and operands -/

section Padded

variable {before after : List Char} (start : Nat) (code : Code)

theorem width_asCode (text : List Char) : Code.width (asCode text) = text.length := by
  rw [Code.width, codeText_asCode]

/-- Blanks in front move the pieces of a branch, blanks behind it do nothing. -/
theorem branchPieces_padded (hbefore : ∀ c ∈ before, isBlank c = true)
    (hafter : ∀ c ∈ after, isBlank c = true) :
    branchPieces start (asCode before ++ code ++ asCode after)
      = branchPieces (start + before.length) code := by
  rw [List.append_assoc]
  by_cases hcode : code.trim = []
  · -- blanks alone have no pieces, so it does not matter where they end
    have htrim := (trim_padded hbefore hafter code).trans hcode
    rw [branchPieces_of_nil start htrim, branchPieces_of_nil _ hcode]
  · simp only [branchPieces_eq, trim_padded hbefore hafter, lead_padded hbefore hcode,
      Code.width_append, width_asCode, Nat.add_assoc]

/-- Blanks in front move the pieces of an operand, blanks behind it do nothing. -/
theorem operandPieces_padded (hbefore : ∀ c ∈ before, isBlank c = true)
    (hafter : ∀ c ∈ after, isBlank c = true) :
    operandPieces start (asCode before ++ code ++ asCode after)
      = operandPieces (start + before.length) code := by
  rw [List.append_assoc]
  by_cases hcode : code.trim = []
  · -- blanks alone have no pieces, so it does not matter where they end
    have htrim := (trim_padded hbefore hafter code).trans hcode
    rw [operandPieces_of_nil start htrim, operandPieces_of_nil _ hcode]
  · simp only [operandPieces_eq, trim_padded hbefore hafter, lead_padded hbefore hcode,
      Code.width_append, width_asCode, Nat.add_assoc]

end Padded

/-! ## Sums -/

/-- The pieces of operands that stand next to each other, one plus sign between neighbours. -/
def sumPieces (start : Nat) (operands : List Code) : List Piece :=
  (placed start operands).flatMap fun entry => operandPieces entry.1 entry.2

theorem sumPieces_nil (start : Nat) : sumPieces start [] = [] := rfl

theorem sumPieces_cons (start : Nat) (operand : Code) (operands : List Code) :
    sumPieces start (operand :: operands)
      = operandPieces start operand ++ sumPieces (start + operand.width + 1) operands := rfl

section Sum

variable {before after : List Char}

theorem sumPieces_blank_append (hbefore : ∀ c ∈ before, isBlank c = true) (start : Nat)
    (first : Code) (operands : List Code) :
    sumPieces start ((asCode before ++ first) :: operands)
      = sumPieces (start + before.length) (first :: operands) := by
  have hfirst := operandPieces_padded start first hbefore nil_blank
  rw [asCode_nil, List.append_nil] at hfirst
  rw [sumPieces_cons, sumPieces_cons, hfirst, Code.width_append, width_asCode,
    ← Nat.add_assoc start]

theorem sumPieces_append_blank (hafter : ∀ c ∈ after, isBlank c = true) (start : Nat)
    (operands : List Code) (last : Code) :
    sumPieces start (operands ++ [last ++ asCode after])
      = sumPieces start (operands ++ [last]) := by
  induction operands generalizing start with
  | nil =>
    have hlast := operandPieces_padded start last nil_blank hafter
    rw [asCode_nil, List.nil_append] at hlast
    rw [List.nil_append, List.nil_append, sumPieces_cons, sumPieces_cons, hlast]
    rfl
  | cons operand operands ih =>
    rw [List.cons_append, List.cons_append, sumPieces_cons, sumPieces_cons, ih]

/-- Blanks around a sum: those in front move it, those behind it do nothing. -/
theorem sumPieces_padded (hbefore : ∀ c ∈ before, isBlank c = true)
    (hafter : ∀ c ∈ after, isBlank c = true) (start : Nat) (code : Code) :
    sumPieces start (Code.operands (asCode before ++ code ++ asCode after))
      = sumPieces (start + before.length) code.operands := by
  have hlead : Unmarked sumMarks (asCode before) := .blanks hbefore sumMarks_not_blank
  show sumPieces start (Code.cutAtMarks (Code.flagged sumMarks 0 _)) = _
  rw [flagged_append_blank hafter sumMarks_not_blank, hlead code, List.append_assoc]
  obtain ⟨operands, last, hcut, happend⟩ :=
    cutAtMarks_append_unmarked (code.flagged sumMarks 0) (asCode after)
  obtain ⟨first, others, hfirst⟩ :=
    exists_cutAtMarks (code.flagged sumMarks 0 ++ unmarked (asCode after))
  rw [cutAtMarks_unmarked _ hfirst, sumPieces_blank_append hbefore, ← hfirst, happend,
    sumPieces_append_blank hafter, ← hcut]
  rfl

end Sum

/-! ## Conditionals -/

/-- The pieces of the branches of a conditional. -/
def choicePieces (start : Nat) (cut : Code.Conditional) : List Piece :=
  branchPieces (start + cut.condition.width + 1) cut.yes
    ++ branchPieces (start + cut.condition.width + cut.yes.width + 2) cut.no

/-- Blanks around a conditional go to the condition, where they count, and to the last branch,
where they do nothing. -/
theorem choicePieces_padded {before after : List Char} (hafter : ∀ c ∈ after, isBlank c = true)
    (start : Nat) (cut : Code.Conditional) :
    choicePieces start ⟨asCode before ++ cut.condition, cut.yes, cut.no ++ asCode after⟩
      = choicePieces (start + before.length) cut := by
  have hno (place : Nat) := branchPieces_padded place cut.no nil_blank hafter
  simp only [asCode_nil, List.nil_append, List.length_nil, Nat.add_zero] at hno
  simp only [choicePieces, Code.width_append, width_asCode, ← Nat.add_assoc, hno]

/-! ## Expressions -/

/-- The pieces of an expression, cut as it stands. -/
theorem pieces_eq_untrimmed (start : Nat) (code : Code) :
    pieces start code =
      match code.blanked.conditional? with
      | some cut => choicePieces start cut
      | none => sumPieces start code.blanked.operands := by
  rw [pieces_eq]
  generalize code.blanked = shown
  obtain ⟨before, after, hbefore, hafter, hlead, hshown⟩ := exists_padding shown
  have hcut := congrArg Code.conditional? hshown
  rw [conditional?_padded hbefore hafter] at hcut
  have hsum := congrArg (fun code => sumPieces start (Code.operands code)) hshown
  rw [sumPieces_padded hbefore hafter] at hsum
  rw [hcut, hlead, width_asCode]
  cases shown.trim.conditional? with
  | none => exact hsum.symm
  | some cut => exact (choicePieces_padded hafter start cut).symm

theorem blanked_append (a b : Code) : Code.blanked (a ++ b) = a.blanked ++ b.blanked :=
  List.flatMap_append

theorem blanked_asCode (text : List Char) : Code.blanked (asCode text) = asCode text := by
  induction text with
  | nil => rfl
  | cons c text ih =>
    rw [asCode_cons, blanked_cons, ih]
    rfl

/-- Blanks in front move the pieces of an expression, blanks behind it do nothing. -/
theorem pieces_padded {before after : List Char} (hbefore : ∀ c ∈ before, isBlank c = true)
    (hafter : ∀ c ∈ after, isBlank c = true) (start : Nat) (code : Code) :
    pieces start (asCode before ++ code ++ asCode after) = pieces (start + before.length) code := by
  rw [pieces_eq_untrimmed, pieces_eq_untrimmed, blanked_append, blanked_append, blanked_asCode,
    blanked_asCode, conditional?_padded hbefore hafter, sumPieces_padded hbefore hafter]
  cases code.blanked.conditional? with
  | none => rfl
  | some cut => exact choicePieces_padded hafter start cut

theorem pieces_blank {blanks : List Char} (h : ∀ c ∈ blanks, isBlank c = true) (start : Nat) :
    pieces start (asCode blanks) = [] := by
  have hempty : pieces (start + blanks.length) [] = [] := by
    rw [pieces_eq_untrimmed]
    -- an empty sum has one operand, which is empty
    show operandPieces _ [] ++ [] = []
    rw [operandPieces_of_nil _ rfl, List.append_nil]
  have hpadded := pieces_padded h nil_blank start []
  rwa [asCode_nil, List.append_nil, List.append_nil, hempty] at hpadded

end StyleAudit
