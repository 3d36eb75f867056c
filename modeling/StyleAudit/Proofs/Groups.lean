import Mathlib.Data.List.Basic
import Mathlib.Data.List.Induction
import StyleAudit.Groups

/-!
# What groups hold

`collect` goes through entries one at a time. `collect_eq` says what it makes of all of them: one
group for each key, the keys in the order in which they first appear (`InFirstOrder`), and under
each key its values in the order of the entries. `ascending` keeps the numbers it is given, each
once and in strict order.
-/

namespace StyleAudit

/-! ## First appearance -/

section FirstOrder

variable {α : Type} [DecidableEq α]

/-- The second list holds the values of the first, each once, in the order in which they first
appear. -/
structure InFirstOrder (values distinct : List α) : Prop where
  nodup : distinct.Nodup
  mem_iff : ∀ a, a ∈ distinct ↔ a ∈ values
  ordered : distinct.Pairwise fun a b => values.idxOf a < values.idxOf b

theorem eraseDups_concat (values : List α) (a : α) :
    (values ++ [a]).eraseDups
      = if a ∈ values then values.eraseDups else values.eraseDups ++ [a] := by
  rw [List.eraseDups_append]
  by_cases h : a ∈ values <;> simp [List.removeAll, List.eraseDups_cons, h]

theorem ordered_eraseDups (values : List α) :
    values.eraseDups.Pairwise fun a b => values.idxOf a < values.idxOf b := by
  induction values using List.reverseRecOn with
  | nil => simp
  | append_singleton values last ih =>
    -- a value that is there already keeps its place when another one follows
    have hkept : values.eraseDups.Pairwise fun a b =>
        (values ++ [last]).idxOf a < (values ++ [last]).idxOf b := by
      refine ih.imp_of_mem fun ha hb hab => ?_
      rw [List.mem_eraseDups] at ha hb
      rwa [List.idxOf_append_of_mem ha, List.idxOf_append_of_mem hb]
    rw [eraseDups_concat]
    split
    · exact hkept
    · rename_i hlast
      refine List.pairwise_append.mpr ⟨hkept, List.pairwise_singleton _ _, ?_⟩
      intro a ha b hb
      obtain rfl := List.mem_singleton.mp hb
      rw [List.mem_eraseDups] at ha
      rw [List.idxOf_append_of_mem ha, List.idxOf_append_of_notMem hlast]
      exact Nat.lt_of_lt_of_le (List.idxOf_lt_length_of_mem ha) (Nat.le_add_right _ _)

theorem nodup_eraseDups (values : List α) : values.eraseDups.Nodup := by
  refine (ordered_eraseDups values).imp fun hab => ?_
  rintro rfl
  exact Nat.lt_irrefl _ hab

theorem inFirstOrder_eraseDups (values : List α) : InFirstOrder values values.eraseDups :=
  ⟨nodup_eraseDups values, fun _ => List.mem_eraseDups, ordered_eraseDups values⟩

/-- Values that a function tells apart can be mapped before or after repetitions are dropped. -/
theorem map_eraseDups_of_injOn {β : Type} [DecidableEq β] {values : List α} {f : α → β}
    (h : ∀ a ∈ values, ∀ b ∈ values, f a = f b → a = b) :
    values.eraseDups.map f = (values.map f).eraseDups := by
  induction values using List.reverseRecOn with
  | nil => rfl
  | append_singleton values last ih =>
    have hlast : last ∈ values ++ [last] := List.mem_append_right _ List.mem_cons_self
    have hbefore := ih fun a ha b hb =>
      h a (List.mem_append_left _ ha) b (List.mem_append_left _ hb)
    have hmem : f last ∈ values.map f ↔ last ∈ values := by
      constructor
      · intro hfirst
        obtain ⟨a, ha, heq⟩ := List.mem_map.mp hfirst
        exact h a (List.mem_append_left _ ha) last hlast heq ▸ ha
      · exact List.mem_map_of_mem
    rw [List.map_append, List.map_singleton, eraseDups_concat, eraseDups_concat, ← hbefore]
    simp only [hmem]
    split
    · rfl
    · rw [List.map_append, List.map_singleton]

end FirstOrder

/-! ## Groups -/

section Collect

variable {κ α : Type} [DecidableEq κ]

/-- The values that entries have under a key. -/
def valuesAt (entries : List (κ × α)) (key : κ) : List α :=
  (entries.filter fun entry => entry.1 = key).map (·.2)

theorem mem_valuesAt {entries : List (κ × α)} {key : κ} {value : α} :
    value ∈ valuesAt entries key ↔ (key, value) ∈ entries := by
  simp only [valuesAt, List.mem_map, List.mem_filter, decide_eq_true_eq]
  constructor
  · rintro ⟨entry, ⟨hentry, rfl⟩, rfl⟩
    exact hentry
  · intro h
    exact ⟨(key, value), ⟨h, rfl⟩, rfl⟩

theorem valuesAt_eq_nil {entries : List (κ × α)} {key : κ} (h : key ∉ entries.map (·.1)) :
    valuesAt entries key = [] := by
  refine List.eq_nil_iff_forall_not_mem.mpr fun value hvalue => h ?_
  exact List.mem_map_of_mem (mem_valuesAt.mp hvalue)

theorem valuesAt_concat (entries : List (κ × α)) (key : κ) (value : α) (other : κ) :
    valuesAt (entries ++ [(key, value)]) other
      = if other = key then valuesAt entries other ++ [value] else valuesAt entries other := by
  by_cases h : other = key
  · simp [valuesAt, h]
  · simp [valuesAt, h, Ne.symm h]

/-- A new key starts a group behind the others. -/
theorem addTo_of_not_mem {key : κ} (value : α) {groups : List (κ × List α)}
    (h : key ∉ groups.map (·.1)) : addTo key value groups = groups ++ [(key, [value])] := by
  induction groups with
  | nil => rfl
  | cons entry groups ih =>
    obtain ⟨hne, hrest⟩ := List.ne_and_not_mem_of_not_mem_cons h
    rw [addTo, if_neg (Ne.symm hne), ih hrest, List.cons_append]

/-- A known key takes the value, and no other group changes. -/
theorem addTo_of_mem {key : κ} (value : α) {keys : List κ} (f : κ → List α) (hkeys : keys.Nodup)
    (h : key ∈ keys) :
    addTo key value (keys.map fun k => (k, f k))
      = keys.map fun k => (k, if k = key then f k ++ [value] else f k) := by
  induction keys with
  | nil => simp at h
  | cons first keys ih =>
    obtain ⟨hfirst, hkeys⟩ := List.nodup_cons.mp hkeys
    rw [List.map_cons, List.map_cons, addTo]
    by_cases heq : first = key
    · subst heq
      have hrest : ∀ k ∈ keys, f k = if k = first then f k ++ [value] else f k := by
        intro k hk
        rw [if_neg (ne_of_mem_of_not_mem hk hfirst)]
      rw [if_pos rfl, if_pos rfl, List.map_congr_left fun k hk => congrArg (k, ·) (hrest k hk)]
    · rw [if_neg heq, if_neg heq, ih hkeys (List.mem_of_ne_of_mem (Ne.symm heq) h)]

/-- The groups of some entries: a group for each key, the keys in order of first appearance. -/
theorem collect_eq (entries : List (κ × α)) :
    collect entries
      = (entries.map (·.1)).eraseDups.map fun key => (key, valuesAt entries key) := by
  induction entries using List.reverseRecOn with
  | nil => rfl
  | append_singleton entries entry ih =>
    obtain ⟨key, value⟩ := entry
    have hstep : collect (entries ++ [(key, value)]) = addTo key value (collect entries) := by
      simp [collect]
    have hvalues : (fun k => (k, valuesAt (entries ++ [(key, value)]) k))
        = fun k => (k, if k = key then valuesAt entries k ++ [value] else valuesAt entries k) := by
      funext k
      rw [valuesAt_concat]
    rw [hstep, ih, List.map_append, List.map_singleton, eraseDups_concat, hvalues]
    split
    · rename_i hkey
      exact addTo_of_mem value _ (nodup_eraseDups _) (List.mem_eraseDups.mpr hkey)
    · rename_i hkey
      have hnew : key ∉ ((entries.map (·.1)).eraseDups.map fun k =>
          (k, valuesAt entries k)).map (·.1) := by
        simpa [List.mem_eraseDups] using hkey
      rw [addTo_of_not_mem value hnew, List.map_append, List.map_singleton, if_pos rfl,
        valuesAt_eq_nil hkey, List.nil_append]
      congr 1
      refine List.map_congr_left fun k hk => ?_
      rw [if_neg (ne_of_mem_of_not_mem (List.mem_eraseDups.mp hk) hkey)]

/-- The group of a key holds the key's values, also where it has none. -/
theorem group_collect (entries : List (κ × α)) (key : κ) :
    group (collect entries) key = valuesAt entries key := by
  rw [group, collect_eq]
  by_cases h : key ∈ entries.map (·.1)
  · rw [List.lookup_graph _ (List.mem_eraseDups.mpr h), Option.getD_some]
  · have hnone : (((entries.map (·.1)).eraseDups.map fun k => (k, valuesAt entries k)).lookup key)
        = none := by
      rw [List.lookup_eq_none_iff]
      rintro _ hentry
      obtain ⟨k, hk, rfl⟩ := List.mem_map.mp hentry
      simpa using (ne_of_mem_of_not_mem (List.mem_eraseDups.mp hk) h).symm
    rw [hnone, Option.getD_none, valuesAt_eq_nil h]

theorem inFirstOrder_keys (entries : List (κ × α)) :
    InFirstOrder (entries.map (·.1)) ((collect entries).map (·.1)) := by
  have hkeys : (collect entries).map (·.1) = (entries.map (·.1)).eraseDups := by
    rw [collect_eq, List.map_map]
    exact List.map_id _
  rw [hkeys]
  exact inFirstOrder_eraseDups _

/-- A group holds the values of its key and is not empty. -/
theorem mem_collect_iff {entries : List (κ × α)} {key : κ} {values : List α} :
    (key, values) ∈ collect entries ↔ values ≠ [] ∧ values = valuesAt entries key := by
  simp only [collect_eq, List.mem_map, List.mem_eraseDups, Prod.mk.injEq]
  constructor
  · rintro ⟨_, ⟨entry, hentry, rfl⟩, rfl, rfl⟩
    exact ⟨List.ne_nil_of_mem (mem_valuesAt.mpr hentry), rfl⟩
  · rintro ⟨hne, rfl⟩
    obtain ⟨value, hvalue⟩ := List.exists_mem_of_ne_nil _ hne
    exact ⟨key, ⟨(key, value), mem_valuesAt.mp hvalue, rfl⟩, rfl, rfl⟩

end Collect

/-! ## Numbers in ascending order -/

theorem mem_insertAscending {m n : Int} {numbers : List Int} :
    m ∈ insertAscending n numbers ↔ m = n ∨ m ∈ numbers := by
  induction numbers with
  | nil => simp [insertAscending]
  | cons k rest ih =>
    rw [insertAscending]
    split
    · simp
    · split
      · rename_i heq
        simp [heq]
      · simp only [List.mem_cons, ih]
        exact or_left_comm

theorem pairwise_insertAscending (n : Int) {numbers : List Int}
    (h : numbers.Pairwise (· < ·)) : (insertAscending n numbers).Pairwise (· < ·) := by
  induction numbers with
  | nil => exact List.pairwise_singleton _ _
  | cons k rest ih =>
    obtain ⟨hk, hrest⟩ := List.pairwise_cons.mp h
    rw [insertAscending]
    split
    · rename_i hlt
      refine List.pairwise_cons.mpr ⟨?_, h⟩
      intro m hm
      obtain rfl | hm := List.mem_cons.mp hm
      · exact hlt
      · exact Int.lt_trans hlt (hk m hm)
    · split
      · exact h
      · rename_i hge hne
        refine List.pairwise_cons.mpr ⟨?_, ih hrest⟩
        intro m hm
        obtain rfl | hm := mem_insertAscending.mp hm
        · omega
        · exact hk m hm

theorem mem_ascending {m : Int} {numbers : List Int} : m ∈ ascending numbers ↔ m ∈ numbers := by
  induction numbers with
  | nil => simp [ascending]
  | cons n rest ih =>
    rw [ascending, List.foldr_cons, mem_insertAscending, List.mem_cons]
    exact or_congr_right ih

theorem pairwise_ascending (numbers : List Int) : (ascending numbers).Pairwise (· < ·) := by
  induction numbers with
  | nil => exact List.Pairwise.nil
  | cons n rest ih => exact pairwise_insertAscending n ih

end StyleAudit
