import Mathlib.Data.List.Basic
import StyleAudit.Proofs.Expression.Equations
import StyleAudit.Proofs.Expression.Stages

/-!
# Pieces further on

Where an expression starts has no part in how it is taken apart: further on it gives the same
pieces, as much further on (`pieces_add`). The proof goes through the stages of the recursion. Each
stage is entered from one of higher rank, so what holds of a stage whenever it holds of those it
enters holds of all of them (`Stage.induction`).
-/

namespace StyleAudit

namespace Stage

/-! ## Induction over stages -/

/-- The pieces that a stage gives where it starts. -/
def pieces (start : Nat) : Stage → List Piece
  | .expression code => StyleAudit.pieces start code
  | .branch code => branchPieces start code
  | .operand code => operandPieces start code
  | .template parts => templatePieces start parts

/-- The width of a stage, and for stages of one width the order they are entered in. -/
def rank : Stage → Nat
  | .expression code => 3 * code.width + 1
  | .branch code => 3 * code.width + 2
  | .operand code => 3 * code.width
  | .template parts => 3 * (partsText parts).length

theorem width_trim_blanked_le (code : Code) : code.blanked.trim.width ≤ code.width := by
  have htrim := Code.width_trim_le code.blanked
  rwa [Code.width_blanked] at htrim

theorem length_lt_of_trim {code : Code} {parts : List Part} (h : code.trim = [.template parts]) :
    (partsText parts).length < code.width := by
  have hwidth := Code.width_trim_le code
  rw [h] at hwidth
  exact Nat.lt_of_lt_of_le (Code.length_partsText_lt parts) hwidth

/-- What a stage enters has a lower rank. -/
theorem Enters.rank_lt {stage next : Stage} (h : Enters stage next) : next.rank < stage.rank := by
  cases h with
  | @yes code cut h =>
    have hcut := (Code.width_conditional? h).1
    have hbody := width_trim_blanked_le code
    simp only [rank]
    omega
  | @no code cut h =>
    have hcut := (Code.width_conditional? h).2
    have hbody := width_trim_blanked_le code
    simp only [rank]
    omega
  | @summand code operand _ h =>
    have hcut := Code.width_operands h
    have hbody := width_trim_blanked_le code
    simp only [rank]
    omega
  | branchTemplate h =>
    have hparts := length_lt_of_trim h
    simp only [rank]
    omega
  | @branchGroup code inner h =>
    have hinner := Code.width_unwrap? h
    have hbody := Code.width_trim_le code
    simp only [rank]
    omega
  | @branchConditional code _ =>
    have hbody := Code.width_trim_le code
    simp only [rank]
    omega
  | operandTemplate h =>
    have hparts := length_lt_of_trim h
    simp only [rank]
    omega
  | @operandGroup code inner h =>
    have hinner := Code.width_unwrap? h
    have hbody := Code.width_trim_le code
    simp only [rank]
    omega
  | hole h =>
    have hcode := Code.width_lt_of_hole_mem h
    simp only [rank]
    omega

/-- What holds of a stage as soon as it holds of all stages entered from it holds of every stage. -/
theorem induction {motive : Stage → Prop}
    (step : ∀ stage, (∀ next, Enters stage next → motive next) → motive stage) (stage : Stage) :
    motive stage := by
  induction hrank : stage.rank using Nat.strong_induction_on generalizing stage with
  | h rank ih =>
    apply step
    intro next hnext
    exact ih next.rank (hrank ▸ hnext.rank_lt) next rfl

end Stage

/-! ## Positions that move -/

/-- The piece, `n` characters further on. -/
def Piece.shift (n : Nat) : Piece → Piece
  | .literal text start => .literal text (start + n)
  | .dynamic text start => .dynamic text (start + n)

/-- The stretch of a template, `n` characters further on. -/
def Span.shift (n : Nat) : Span → Span
  | .text chars start => .text chars (start + n)
  | .hole code start => .hole code (start + n)

theorem placed_add (n start : Nat) (operands : List Code) :
    placed (start + n) operands = (placed start operands).map fun entry =>
      (entry.1 + n, entry.2) := by
  induction operands generalizing start with
  | nil => rfl
  | cons operand operands ih =>
    have hnext : start + n + operand.width + 1 = start + operand.width + 1 + n := by omega
    rw [placed, hnext, ih]
    rfl

theorem spans_add (n : Nat) {start : Nat} {done : List Char} (hdone : done.length ≤ start)
    (parts : List Part) :
    spans (start + n) done parts = (spans start done parts).map (Span.shift n) := by
  fun_induction spans start done parts with
  | case1 start done =>
    have hstart : start + n - done.length = start - done.length + n := by omega
    simp [spans, Span.shift, hstart]
  | case2 start done c parts ih =>
    rw [spans, Nat.add_right_comm]
    exact ih (by simpa using hdone)
  | case3 start done code closer parts ih =>
    have hstart : start + n - done.length = start - done.length + n := by omega
    have hcode : start + n + 2 = start + 2 + n := by omega
    have hnext : start + n + (Part.hole code closer).text.length
        = start + (Part.hole code closer).text.length + n := by omega
    rw [spans, hstart, hcode, hnext, ih (Nat.zero_le _)]
    rfl

/-- A stage that starts further on gives the same pieces further on. -/
theorem Stage.pieces_add (n : Nat) (stage : Stage) :
    ∀ start, stage.pieces (start + n) = (stage.pieces start).map (Piece.shift n) := by
  induction stage using Stage.induction with
  | step stage ih =>
    intro start
    cases stage with
    | expression code =>
      simp only [Stage.pieces, pieces_eq]
      have hlead : start + n + code.blanked.lead.width = start + code.blanked.lead.width + n := by
        omega
      rw [hlead]
      generalize start + code.blanked.lead.width = start
      cases hcut : code.blanked.trim.conditional? with
      | some cut =>
        have hyes := ih _ (.yes hcut) (start + cut.condition.width + 1)
        have hno := ih _ (.no hcut) (start + cut.condition.width + cut.yes.width + 2)
        simp only [Stage.pieces] at hyes hno
        simp only [List.map_append, ← hyes, ← hno]
        congr 2 <;> omega
      | none =>
        simp only [placed_add, List.flatMap_map, List.map_flatMap]
        refine List.flatMap_congr fun entry hentry => ?_
        exact ih _ (.summand hcut (Code.mem_of_mem_placed hentry)) entry.1
    | branch code =>
      simp only [Stage.pieces, branchPieces_eq, Nat.add_right_comm start n]
      generalize start + code.lead.width = start
      rw [Nat.add_right_comm start n]
      split
      · rfl
      · next parts htrim => exact ih _ (.branchTemplate htrim) _
      · rfl
      · split
        · next inner hunwrap => exact ih _ (.branchGroup hunwrap) _
        · split
          · next hcut => exact ih _ (.branchConditional hcut) _
          · rfl
    | operand code =>
      simp only [Stage.pieces, operandPieces_eq, Nat.add_right_comm start n]
      generalize start + code.lead.width = start
      rw [Nat.add_right_comm start n]
      split
      · rfl
      · next parts htrim => exact ih _ (.operandTemplate htrim) _
      · split
        · next inner hunwrap => exact ih _ (.operandGroup hunwrap) _
        · split
          · rfl
          · rfl
    | template parts =>
      have hspans := @spans_add n start [] (Nat.zero_le start) parts
      simp only [Stage.pieces, templatePieces_eq, hspans, List.flatMap_map, List.map_flatMap]
      refine List.flatMap_congr fun span hspan => ?_
      cases span with
      | text chars start => rfl
      | hole code start =>
        obtain ⟨closer, hhole⟩ := hole_mem_of_mem_spans hspan
        exact ih _ (.hole hhole) start

theorem pieces_add (n start : Nat) (code : Code) :
    pieces (start + n) code = (pieces start code).map (Piece.shift n) :=
  (Stage.expression code).pieces_add n start

end StyleAudit
