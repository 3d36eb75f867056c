import Mathlib.Data.List.Nodup
import StyleAudit.Proofs.Path.Segments
import StyleAudit.Store.Scan

/-!
# A scan finds each file once

In a file tree the names in a directory differ, and no name has a slash in it (`Tree.WellFormed`).
So a file has one path, and a scan gives each path once (`nodup_scan`). The entries of a directory
are brought in order first, which neither loses nor repeats one of them.
-/

namespace StyleAudit

/-! ## Trees -/

mutual

/-- Whether the names in every directory of a tree meet a condition. -/
def Tree.HasNames (condition : List String → Prop) : Tree → Prop
  | .file _ => True
  | .dir entries => condition (entries.map (·.1)) ∧ EntriesHaveNames condition entries

/-- Whether the names in every directory at or below the entries of a directory meet a condition. -/
def EntriesHaveNames (condition : List String → Prop) : List (String × Tree) → Prop
  | [] => True
  | (_, tree) :: entries => tree.HasNames condition ∧ EntriesHaveNames condition entries

end

section Names

variable {condition : List String → Prop}

theorem entriesHaveNames_iff {entries : List (String × Tree)} :
    EntriesHaveNames condition entries ↔ ∀ entry ∈ entries, entry.2.HasNames condition := by
  induction entries with
  | nil => simp [EntriesHaveNames]
  | cons entry entries ih => rw [EntriesHaveNames, List.forall_mem_cons, ih]

theorem Tree.hasNames_dir_iff {entries : List (String × Tree)} :
    (Tree.dir entries).HasNames condition
      ↔ condition (entries.map (·.1)) ∧ ∀ entry ∈ entries, entry.2.HasNames condition := by
  rw [Tree.HasNames, entriesHaveNames_iff]

mutual

theorem Tree.HasNames.imp {condition' : List String → Prop}
    (himp : ∀ names, condition names → condition' names) :
    (tree : Tree) → tree.HasNames condition → tree.HasNames condition'
  | .file _, _ => trivial
  | .dir entries, h => ⟨himp _ h.1, EntriesHaveNames.imp himp entries h.2⟩

theorem EntriesHaveNames.imp {condition' : List String → Prop}
    (himp : ∀ names, condition names → condition' names) :
    (entries : List (String × Tree)) → EntriesHaveNames condition entries →
      EntriesHaveNames condition' entries
  | [], _ => trivial
  | (_, tree) :: entries, h =>
    ⟨Tree.HasNames.imp himp tree h.1, EntriesHaveNames.imp himp entries h.2⟩

end

/-- What is at a place in a tree is as the tree is, and every name on the way to it is one of names
that meet the condition. -/
theorem Tree.HasNames.of_at? {tree found : Tree} {place : List String}
    (h : tree.HasNames condition) (hfound : tree.at? place = some found) :
    found.HasNames condition ∧ ∀ name ∈ place, ∃ names, condition names ∧ name ∈ names := by
  induction place generalizing tree with
  | nil =>
    rw [Tree.at?_nil] at hfound
    exact ⟨Option.some.inj hfound ▸ h, by simp⟩
  | cons name place ih =>
    cases tree with
    | file bytes => simp [Tree.at?] at hfound
    | dir entries =>
      rw [Tree.at?] at hfound
      split at hfound
      · next below hlookup =>
        obtain ⟨hnames, hentries⟩ := Tree.hasNames_dir_iff.mp h
        have hmem := mem_of_lookup_eq_some hlookup
        obtain ⟨hthere, hplace⟩ := ih (hentries _ hmem) hfound
        exact ⟨hthere, List.forall_mem_cons.mpr
          ⟨⟨_, hnames, List.mem_map_of_mem hmem⟩, hplace⟩⟩
      · cases hfound

end Names

/-- Whether a tree can be that of a file system: the names in a directory differ, and none of them
has a slash in it. -/
def Tree.WellFormed (tree : Tree) : Prop :=
  tree.HasNames fun names => names.Nodup ∧ ∀ name ∈ names, '/' ∉ name.toList

theorem Tree.wellFormed_dir_iff {entries : List (String × Tree)} :
    (Tree.dir entries).WellFormed ↔ (entries.map (·.1)).Nodup
      ∧ ∀ entry ∈ entries, '/' ∉ entry.1.toList ∧ entry.2.WellFormed := by
  rw [Tree.WellFormed, Tree.hasNames_dir_iff, List.forall_mem_map]
  constructor
  · rintro ⟨⟨hnodup, hslash⟩, hbelow⟩
    exact ⟨hnodup, fun entry hmem => ⟨hslash entry hmem, hbelow entry hmem⟩⟩
  · rintro ⟨hnodup, h⟩
    exact ⟨⟨hnodup, fun entry hmem => (h entry hmem).1⟩, fun entry hmem => (h entry hmem).2⟩

/-! ## Order -/

theorem insertByName_perm {α : Type} (named : String × α) (entries : List (String × α)) :
    (insertByName named entries).Perm (named :: entries) := by
  induction entries with
  | nil => exact List.Perm.refl _
  | cons first rest ih =>
    rw [insertByName]
    split
    · exact List.Perm.refl _
    · exact (ih.cons first).trans (.swap named first rest)

theorem foldr_insertByName_perm {α : Type} (entries : List (String × α)) :
    (entries.foldr insertByName []).Perm entries := by
  induction entries with
  | nil => exact List.Perm.refl _
  | cons entry entries ih => exact (insertByName_perm entry _).trans (ih.cons entry)

/-- Bringing entries in order keeps the finds of all of them. -/
theorem inNameOrder_perm (found : List (String × List (List String))) :
    (inNameOrder found).Perm (found.flatMap (·.2)) :=
  (foldr_insertByName_perm found).flatMap_right _

/-! ## Scans -/

/-- Places that their paths tell apart: each is there once and is more than the top, and no segment
has a slash in it. -/
structure ToldApart (places : List (List String)) : Prop where
  nodup : places.Nodup
  ne_nil : ∀ place ∈ places, place ≠ []
  no_slash : ∀ place ∈ places, ∀ segment ∈ place, '/' ∉ segment.toList

namespace ToldApart

variable {places : List (List String)}

theorem perm {other : List (List String)} (h : ToldApart places) (hperm : places.Perm other) :
    ToldApart other where
  nodup := hperm.nodup_iff.mp h.nodup
  ne_nil := fun place hmem => h.ne_nil place (hperm.mem_iff.mpr hmem)
  no_slash := fun place hmem => h.no_slash place (hperm.mem_iff.mpr hmem)

/-- The same places seen from the directory above. -/
theorem below {name : String} (hname : '/' ∉ name.toList) (h : ToldApart places) :
    ToldApart (places.map (name :: ·)) where
  nodup := h.nodup.map fun _ _ heq => (List.cons.inj heq).2
  ne_nil := by
    intro place hmem
    obtain ⟨inner, -, rfl⟩ := List.mem_map.mp hmem
    simp
  no_slash := by
    intro place hmem segment hsegment
    obtain ⟨inner, hinner, rfl⟩ := List.mem_map.mp hmem
    rcases List.mem_cons.mp hsegment with rfl | hsegment
    · exact hname
    · exact h.no_slash inner hinner segment hsegment

/-- Segments without slashes can be read from their path. -/
theorem nodup_paths (h : ToldApart places) : (places.map "/".intercalate).Nodup := by
  refine List.Nodup.map_on ?_ h.nodup
  intro place hplace other hother heq
  rw [← slashSegments_intercalate (h.ne_nil place hplace) (h.no_slash place hplace), heq,
    slashSegments_intercalate (h.ne_nil other hother) (h.no_slash other hother)]

end ToldApart

section Scan

variable (rule : ScanRule)

/-- What is found in an entry is found under its name. -/
theorem exists_of_mem_scanEntry {name : String} {tree : Tree} {place : List String}
    (h : place ∈ scanEntry rule name tree) : ∃ inner, place = name :: inner := by
  cases tree with
  | file bytes =>
    rw [scanEntry] at h
    split at h
    · exact ⟨[], List.mem_singleton.mp h⟩
    · simp at h
  | dir entries =>
    rw [scanEntry] at h
    split at h
    · simp at h
    · obtain ⟨inner, -, rfl⟩ := List.mem_map.mp h
      exact ⟨inner, rfl⟩

theorem exists_of_mem_scanEntries {entries : List (String × Tree)} {place : List String}
    (h : place ∈ (scanEntries rule entries).flatMap (·.2)) :
    ∃ name inner, name ∈ entries.map (·.1) ∧ place = name :: inner := by
  induction entries with
  | nil => simp [scanEntries] at h
  | cons entry entries ih =>
    rw [scanEntries, List.flatMap_cons] at h
    rcases List.mem_append.mp h with h | h
    · obtain ⟨inner, rfl⟩ := exists_of_mem_scanEntry rule h
      exact ⟨entry.1, inner, by simp, rfl⟩
    · obtain ⟨name, inner, hname, rfl⟩ := ih h
      exact ⟨name, inner, List.mem_cons_of_mem _ hname, rfl⟩

mutual

/-- The places found in an entry are told apart. -/
theorem toldApart_scanEntry {name : String} (hname : '/' ∉ name.toList) :
    (tree : Tree) → tree.WellFormed → ToldApart (scanEntry rule name tree)
  | .file bytes, _ => by
    rw [scanEntry]
    split
    · have htop : ToldApart [[name]] := ⟨by simp, by simp, by simpa using hname⟩
      exact htop
    · exact ⟨by simp, by simp, by simp⟩
  | .dir entries, h => by
    rw [Tree.wellFormed_dir_iff] at h
    rw [scanEntry]
    split
    · exact ⟨by simp, by simp, by simp⟩
    · have hentries := toldApart_scanEntries entries h.1 h.2
      exact (hentries.perm (inNameOrder_perm _).symm).below hname

/-- The places found in different entries differ in their first segment. -/
theorem toldApart_scanEntries :
    (entries : List (String × Tree)) → (entries.map (·.1)).Nodup →
      (∀ entry ∈ entries, '/' ∉ entry.1.toList ∧ entry.2.WellFormed) →
      ToldApart ((scanEntries rule entries).flatMap (·.2))
  | [], _, _ => ⟨by simp [scanEntries], by simp [scanEntries], by simp [scanEntries]⟩
  | (name, tree) :: entries, hnames, h => by
    obtain ⟨⟨hslash, htree⟩, h⟩ := List.forall_mem_cons.mp h
    obtain ⟨hnew, hnames⟩ := List.nodup_cons.mp hnames
    have hfirst := toldApart_scanEntry hslash tree htree
    have hrest := toldApart_scanEntries entries hnames h
    rw [scanEntries, List.flatMap_cons]
    refine ⟨?_, ?_, ?_⟩
    · refine List.nodup_append'.mpr ⟨hfirst.nodup, hrest.nodup, ?_⟩
      intro place hplace hother
      obtain ⟨inner, rfl⟩ := exists_of_mem_scanEntry rule hplace
      obtain ⟨other, inner', hmem, heq⟩ := exists_of_mem_scanEntries rule hother
      obtain ⟨rfl, -⟩ := List.cons.inj heq
      exact hnew hmem
    · intro place hplace
      rcases List.mem_append.mp hplace with hplace | hplace
      · exact hfirst.ne_nil place hplace
      · exact hrest.ne_nil place hplace
    · intro place hplace
      rcases List.mem_append.mp hplace with hplace | hplace
      · exact hfirst.no_slash place hplace
      · exact hrest.no_slash place hplace

end

theorem scan_eq_ok {store : Store} {directory : Path} {paths : List String}
    (h : store.scan rule directory = .ok paths) :
    ∃ place entries, store.locate directory = .ok place
      ∧ store.tree.at? place = some (.dir entries)
      ∧ paths = (inNameOrder (scanEntries rule entries)).map "/".intercalate := by
  rw [Store.scan, Store.entries, Store.find] at h
  cases hplace : store.locate directory with
  | error problem => simp [hplace, Except.map] at h
  | ok place =>
    cases hfound : store.tree.at? place with
    | none => simp [hplace, hfound, Except.map] at h
    | some tree =>
      cases tree with
      | file bytes => simp [hplace, hfound, Except.map] at h
      | dir entries =>
        simp only [hplace, hfound, Except.map, Except.ok.injEq] at h
        exact ⟨place, entries, rfl, hfound, h.symm⟩

/-- A scan of a well-formed tree finds no path twice. -/
theorem nodup_scan {store : Store} {directory : Path} {paths : List String}
    (h : store.tree.WellFormed) (hscan : store.scan rule directory = .ok paths) : paths.Nodup := by
  obtain ⟨_, entries, -, hentries, rfl⟩ := scan_eq_ok rule hscan
  obtain ⟨hnames, hbelow⟩ := Tree.wellFormed_dir_iff.mp (h.of_at? hentries).1
  have hfinds := toldApart_scanEntries rule entries hnames hbelow
  exact (hfinds.perm (inNameOrder_perm _).symm).nodup_paths

end Scan

end StyleAudit
