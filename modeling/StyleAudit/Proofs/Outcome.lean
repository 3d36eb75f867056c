import Mathlib.Data.List.Basic

/-!
# Outcomes

A computation that can fail gives a result or an error. These lemmas take one apart that is made of
others: one after the other, or the same for each value of a list.
-/

namespace StyleAudit

variable {α β ε : Type}

theorem bind_eq_ok {outcome : Except ε α} {next : α → Except ε β} {result : β}
    (h : (outcome >>= next) = .ok result) :
    ∃ value, outcome = .ok value ∧ next value = .ok result := by
  cases outcome with
  | error failure => cases h
  | ok value => exact ⟨value, rfl, h⟩

theorem mapError_eq_ok_iff {ε' : Type} {outcome : Except ε α} {failed : ε → ε'} {result : α} :
    outcome.mapError failed = .ok result ↔ outcome = .ok result := by
  cases outcome with
  | error failure => simp [Except.mapError]
  | ok value => simp [Except.mapError]

theorem map_eq_of_mapM_eq_ok {f : α → Except ε β} {values : List α} {results : List β}
    (h : values.mapM f = .ok results) : values.map f = results.map .ok := by
  induction values generalizing results with
  | nil =>
    obtain rfl : [] = results := Except.ok.inj h
    rfl
  | cons value values ih =>
    rw [List.mapM_cons] at h
    cases hvalue : f value with
    | error failure => simp [hvalue, bind, Except.bind] at h
    | ok result =>
      cases hrest : values.mapM f with
      | error failure => simp [hvalue, hrest, bind, Except.bind] at h
      | ok rest =>
        obtain rfl : result :: rest = results := by
          simpa [hvalue, hrest, bind, Except.bind, pure, Except.pure] using h
        rw [List.map_cons, List.map_cons, hvalue, ih hrest]

theorem exists_of_mem_mapM {f : α → Except ε β} {values : List α} {results : List β}
    (h : values.mapM f = .ok results) {result : β} (hmem : result ∈ results) :
    ∃ value ∈ values, f value = .ok result := by
  have hok : .ok result ∈ values.map f := map_eq_of_mapM_eq_ok h ▸ List.mem_map_of_mem hmem
  exact List.mem_map.mp hok

theorem exists_ok_of_mapM {f : α → Except ε β} {values : List α} {results : List β}
    (h : values.mapM f = .ok results) {value : α} (hmem : value ∈ values) :
    ∃ result, f value = .ok result := by
  have hok : f value ∈ results.map .ok := map_eq_of_mapM_eq_ok h ▸ List.mem_map_of_mem hmem
  obtain ⟨result, -, hresult⟩ := List.mem_map.mp hok
  exact ⟨result, hresult.symm⟩

/-- A relation between the results of different values holds between different results. -/
theorem pairwise_of_mapM {f : α → Except ε β} {values : List α} {results : List β}
    (h : values.mapM f = .ok results) (hvalues : values.Nodup) {related : β → β → Prop}
    (hrelated : ∀ value other, value ≠ other → ∀ result result', f value = .ok result →
      f other = .ok result' → related result result') : results.Pairwise related := by
  have hpairs : (values.map f).Pairwise fun a b =>
      ∀ result result', a = .ok result → b = .ok result' → related result result' := by
    rw [List.pairwise_map]
    exact hvalues.imp fun hne => hrelated _ _ hne
  rw [map_eq_of_mapM_eq_ok h, List.pairwise_map] at hpairs
  exact hpairs.imp fun hpair => hpair _ _ rfl rfl

theorem mapM_eq_ok {f : α → Except ε β} {values : List α} {results : List β}
    (h : List.Forall₂ (fun value result => f value = .ok result) values results) :
    values.mapM f = .ok results := by
  induction h with
  | nil => rfl
  | cons hvalue _ ih =>
    rw [List.mapM_cons, hvalue, ih]
    rfl

/-- Where a computation gives the same result for each value, it does for all of them. -/
theorem mapM_eq_ok_of_forall {f g : α → Except ε β} {values : List α} {results : List β}
    (h : values.mapM f = .ok results)
    (hsame : ∀ value ∈ values, ∀ result, f value = .ok result → g value = .ok result) :
    values.mapM g = .ok results := by
  have hmap : values.map g = values.map f := by
    apply List.map_congr_left
    intro value hvalue
    obtain ⟨result, hresult⟩ := exists_ok_of_mapM h hvalue
    rw [hsame value hvalue result hresult, hresult]
  have hid (h : α → Except ε β) : (values.map h).mapM id = values.mapM h := List.mapM_map
  rw [← hid, hmap, hid, h]

end StyleAudit
