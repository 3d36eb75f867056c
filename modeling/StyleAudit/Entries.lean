/-!
# Entries with names

Objects and directories are lists of entries, each with a name that no other entry has. Looking an
entry up is `List.lookup`; this file has the operations that keep names apart.
-/

namespace StyleAudit

variable {τ α : Type} [DecidableEq τ]

theorem mem_of_lookup_eq_some {name : τ} {value : α} {entries : List (τ × α)}
    (h : entries.lookup name = some value) : (name, value) ∈ entries := by
  obtain ⟨before, after, rfl, -⟩ := List.lookup_eq_some_iff.mp h
  simp

theorem not_mem_of_lookup_eq_none {name : τ} {entries : List (τ × α)}
    (h : entries.lookup name = none) : name ∉ entries.map Prod.fst := by
  rw [List.lookup_eq_none_iff] at h
  intro hmem
  obtain ⟨entry, hentry, rfl⟩ := List.mem_map.mp hmem
  simpa using h entry hentry

/-- Sets the value of an entry. A name that is there keeps its place and gets the new value; a new
name goes to the end. -/
def setEntry (name : τ) (value : α) : List (τ × α) → List (τ × α)
  | [] => [(name, value)]
  | (name', value') :: entries =>
    if name' = name then (name, value) :: entries
    else (name', value') :: setEntry name value entries

/-- The entry of a name is the value it was set to. -/
theorem lookup_setEntry_self (name : τ) (value : α) (entries : List (τ × α)) :
    (setEntry name value entries).lookup name = some value := by
  induction entries with
  | nil => simp [setEntry]
  | cons entry entries ih =>
    obtain ⟨name', value'⟩ := entry
    by_cases h : name' = name
    · simp [setEntry, h]
    · have h' : (name == name') = false := by simpa using fun e => h e.symm
      simp [setEntry, h, List.lookup_cons, h', ih]

/-- Setting an entry leaves all others as they are. -/
theorem lookup_setEntry_of_ne {name other : τ} (value : α) (entries : List (τ × α))
    (h : other ≠ name) : (setEntry name value entries).lookup other = entries.lookup other := by
  have h' : (other == name) = false := by simpa using h
  induction entries with
  | nil => simp [setEntry, List.lookup_cons, h']
  | cons entry entries ih =>
    obtain ⟨name', value'⟩ := entry
    by_cases hn : name' = name
    · subst hn
      simp [setEntry, List.lookup_cons, h']
    · simp only [setEntry, hn, if_false, List.lookup_cons, ih]

/-- Only the last of two values that an entry is set to counts. -/
theorem setEntry_setEntry (name : τ) (first second : α) (entries : List (τ × α)) :
    setEntry name second (setEntry name first entries) = setEntry name second entries := by
  induction entries with
  | nil => simp [setEntry]
  | cons entry entries ih =>
    obtain ⟨name', value'⟩ := entry
    by_cases h : name' = name
    · simp [setEntry, h]
    · simp [setEntry, h, ih]

/-- To set an entry to the value it has changes nothing. -/
theorem setEntry_of_lookup {name : τ} {value : α} {entries : List (τ × α)}
    (h : entries.lookup name = some value) : setEntry name value entries = entries := by
  induction entries with
  | nil => cases h
  | cons entry entries ih =>
    obtain ⟨name', value'⟩ := entry
    by_cases hname : name' = name
    · subst hname
      rw [List.lookup_cons_self, Option.some.injEq] at h
      rw [setEntry, if_pos rfl, h]
    · have hother : (name == name') = false := by simpa using fun heq => hname heq.symm
      rw [List.lookup_cons, hother] at h
      rw [setEntry, if_neg hname, ih h]

/-- A new name goes to the end. -/
theorem setEntry_of_not_mem {name : τ} (value : α) {entries : List (τ × α)}
    (h : name ∉ entries.map Prod.fst) :
    setEntry name value entries = entries ++ [(name, value)] := by
  induction entries with
  | nil => rfl
  | cons entry entries ih =>
    simp only [List.map_cons, List.mem_cons, not_or] at h
    rw [setEntry, if_neg fun heq => h.1 heq.symm, ih h.2, List.cons_append]

/-- The names stay in their order, and a new name goes to the end. -/
theorem map_fst_setEntry (name : τ) (value : α) (entries : List (τ × α)) :
    (setEntry name value entries).map Prod.fst
      = if name ∈ entries.map Prod.fst then entries.map Prod.fst
        else entries.map Prod.fst ++ [name] := by
  induction entries with
  | nil => rfl
  | cons entry entries ih =>
    by_cases hname : entry.1 = name
    · simp [setEntry, hname]
    · have hother : ¬ name = entry.1 := fun heq => hname heq.symm
      simp only [setEntry, hname, if_false, List.map_cons, ih, List.mem_cons, hother, false_or]
      split <;> rfl

/-- Setting an entry adds nothing but that entry. -/
theorem mem_of_mem_setEntry {name : τ} {value : α} {entries : List (τ × α)}
    {entry : τ × α} (h : entry ∈ setEntry name value entries) :
    entry = (name, value) ∨ entry ∈ entries := by
  induction entries with
  | nil => exact .inl (List.mem_singleton.mp h)
  | cons first entries ih =>
    rw [setEntry] at h
    split at h
    · exact (List.mem_cons.mp h).imp_right (List.mem_cons_of_mem _)
    · rcases List.mem_cons.mp h with rfl | h
      · exact .inr List.mem_cons_self
      · exact (ih h).imp_right (List.mem_cons_of_mem _)

end StyleAudit
