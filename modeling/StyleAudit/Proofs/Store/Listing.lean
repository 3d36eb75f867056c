import Mathlib.Data.List.Sort
import StyleAudit.Proofs.Store.Unseen

/-!
# A scan lists the wanted files in order

Paths are in order segment by segment, so that everything in a directory stands at the place of the
directory's name; the order of their texts is another one, since a slash comes behind some of the
characters of a name. A scan gives the wanted files strictly in this order (`scan_lists_exactly`).
Two lists in strict order need to have only their members compared: a scan that wants less finds
a part of the list.
-/

namespace StyleAudit

/-! ## Order -/

/-- The finds of entries with different names are in order, if those of each entry are and begin
with its name. -/
theorem pairwise_inNameOrder {found : List (String × List (List String))}
    (hnames : (found.map (·.1)).Nodup)
    (hunder : ∀ entry ∈ found, ∀ place ∈ entry.2, ∃ inner, place = entry.1 :: inner)
    (hsorted : ∀ entry ∈ found, entry.2.Pairwise (· < ·)) :
    (inNameOrder found).Pairwise (· < ·) := by
  have hperm := foldr_insertByName_perm found
  have hdiffer : (found.foldr insertByName []).Pairwise fun a b => a.1 ≠ b.1 := by
    rw [← List.pairwise_map, ← List.nodup_iff_pairwise_ne]
    exact (hperm.map (·.1)).nodup_iff.mpr hnames
  rw [inNameOrder, List.pairwise_flatMap]
  constructor
  · intro entry hentry
    exact hsorted entry (hperm.mem_iff.mp hentry)
  · refine ((sorted_foldr_insertByName found).and hdiffer).imp_of_mem ?_
    intro entry other hentry hother hboth place hplace later hlater
    obtain ⟨hle, hne⟩ := hboth
    obtain ⟨inner, rfl⟩ := hunder entry (hperm.mem_iff.mp hentry) place hplace
    obtain ⟨inner', rfl⟩ := hunder other (hperm.mem_iff.mp hother) later hlater
    exact List.cons_lt_cons_iff.mpr (.inl (Std.lt_of_le_of_ne hle hne))

section Scan

variable (rule : ScanRule)

theorem map_fst_scanEntries (entries : List (String × Tree)) :
    (scanEntries rule entries).map (·.1) = entries.map (·.1) := by
  rw [scanEntries_eq_map, List.map_map]
  rfl

/-- What is found in a directory is in order, if what is found in each entry is. -/
theorem pairwise_scanEntries {entries : List (String × Tree)}
    (hnames : (entries.map (·.1)).Nodup)
    (hsorted : ∀ entry ∈ scanEntries rule entries, entry.2.Pairwise (· < ·)) :
    (inNameOrder (scanEntries rule entries)).Pairwise (· < ·) := by
  refine pairwise_inNameOrder (map_fst_scanEntries rule entries ▸ hnames) ?_ hsorted
  rw [scanEntries_eq_map, List.forall_mem_map]
  intro entry _ place hplace
  exact exists_of_mem_scanEntry rule hplace

mutual

/-- What is found in an entry of a directory is in order. -/
theorem pairwise_scanEntry {name : String} :
    (tree : Tree) → tree.WellFormed → (scanEntry rule name tree).Pairwise (· < ·)
  | .file bytes, _ => by
    rw [scanEntry]
    split
    · exact List.pairwise_singleton _ _
    · exact .nil
  | .dir entries, h => by
    rw [Tree.wellFormed_dir_iff] at h
    rw [scanEntry]
    split
    · exact .nil
    · rw [List.pairwise_map]
      refine (pairwise_scanEntries rule h.1 (pairwise_of_mem_scanEntries entries h.2)).imp ?_
      intro place later hlt
      exact List.cons_lt_cons_iff.mpr (.inr ⟨rfl, hlt⟩)

theorem pairwise_of_mem_scanEntries :
    (entries : List (String × Tree)) →
      (∀ entry ∈ entries, '/' ∉ entry.1.toList ∧ entry.2.WellFormed) →
      ∀ entry ∈ scanEntries rule entries, entry.2.Pairwise (· < ·)
  | [], _ => by simp [scanEntries]
  | (name, tree) :: entries, h => by
    obtain ⟨⟨-, htree⟩, h⟩ := List.forall_mem_cons.mp h
    rw [scanEntries, List.forall_mem_cons]
    exact ⟨pairwise_scanEntry tree htree, pairwise_of_mem_scanEntries entries h⟩

end

/-! ## Scans -/

theorem scan_eq_of_find {store : Store} {directory : Path} {entries : List (String × Tree)}
    (hfind : store.find directory = .ok (.dir entries)) : store.scan rule directory
      = .ok ((inNameOrder (scanEntries rule entries)).map "/".intercalate) := by
  rw [Store.scan, Store.entries, hfind]
  rfl

/-- What is found by a rule that wants no more and ignores no less was found before, at the same
places in the order. -/
theorem sublist_of_narrower {narrow : ScanRule} {entries : List (String × Tree)}
    (hsuffixes : narrow.suffixes ⊆ rule.suffixes) (hignored : rule.ignored ⊆ narrow.ignored)
    (h : (Tree.dir entries).WellFormed) : (inNameOrder (scanEntries narrow entries)).Sublist
      (inNameOrder (scanEntries rule entries)) := by
  rw [Tree.wellFormed_dir_iff] at h
  have hsorted (rule : ScanRule) :=
    pairwise_scanEntries rule h.1 (pairwise_of_mem_scanEntries rule entries h.2)
  have hmem (rule : ScanRule) (place : List String) :=
    (inNameOrder_perm (scanEntries rule entries)).mem_iff.trans
      (mem_scanEntries_iff rule place entries h.1 h.2)
  have hsubset : inNameOrder (scanEntries narrow entries)
      ⊆ inNameOrder (scanEntries rule entries) := by
    intro place hplace
    obtain ⟨bytes, hfile, above, last, rfl, ⟨suffix, hsuffix, hlower⟩, habove⟩ :=
      (hmem narrow place).mp hplace
    refine (hmem rule _).mpr ⟨bytes, hfile, above, last, rfl, ⟨suffix, hsuffixes hsuffix, hlower⟩,
      fun name hname hold => habove name hname (hignored hold)⟩
  exact List.sublist_of_subperm_of_pairwise
    (List.subperm_of_subset (hsorted narrow).nodup hsubset) (hsorted narrow) (hsorted rule)

/-- A scan of a directory lists exactly the files below it that its rule is about. It lists each of
them once and in the order of their segments, and a rule with fewer suffixes or more ignored
directories gives a part of the list. -/
theorem scan_lists_exactly {store : Store} {directory : Path} {entries : List (String × Tree)}
    (hfind : store.find directory = .ok (.dir entries)) (h : (Tree.dir entries).WellFormed) :
    ∃ paths, store.scan rule directory = .ok paths
      ∧ (∀ path, path ∈ paths ↔ ∃ place bytes, path = "/".intercalate place
        ∧ (Tree.dir entries).at? place = some (.file bytes) ∧ rule.Finds place)
      ∧ paths.Nodup
      ∧ (paths.Pairwise fun path later => slashSegments path < slashSegments later)
      ∧ ∀ narrow : ScanRule, narrow.suffixes ⊆ rule.suffixes → rule.ignored ⊆ narrow.ignored →
        ∃ fewer, store.scan narrow directory = .ok fewer ∧ fewer.Sublist paths := by
  have hparts := h
  rw [Tree.wellFormed_dir_iff] at hparts
  have hperm := inNameOrder_perm (scanEntries rule entries)
  have htold := (toldApart_scanEntries rule entries hparts.1 hparts.2).perm hperm.symm
  refine ⟨_, scan_eq_of_find rule hfind, ?_, htold.nodup_paths, ?_, ?_⟩
  · intro path
    simp only [List.mem_map, hperm.mem_iff, mem_scanEntries_iff rule _ entries hparts.1 hparts.2]
    constructor
    · rintro ⟨place, ⟨bytes, hfile, hfinds⟩, rfl⟩
      exact ⟨place, bytes, rfl, hfile, hfinds⟩
    · rintro ⟨place, bytes, rfl, hfile, hfinds⟩
      exact ⟨place, ⟨bytes, hfile, hfinds⟩, rfl⟩
  · rw [List.pairwise_map]
    have hsorted :=
      pairwise_scanEntries rule hparts.1 (pairwise_of_mem_scanEntries rule entries hparts.2)
    refine hsorted.imp_of_mem fun {place later} hplace hlater hlt => ?_
    rwa [slashSegments_intercalate (htold.ne_nil place hplace) (htold.no_slash place hplace),
      slashSegments_intercalate (htold.ne_nil later hlater) (htold.no_slash later hlater)]
  · intro narrow hsuffixes hignored
    exact ⟨_, scan_eq_of_find narrow hfind,
      (sublist_of_narrower rule hsuffixes hignored h).map _⟩

end Scan

/-- A directory and a file whose names begin alike, a directory that is named like a stylesheet and
one that is not entered. -/
def sheetEntries : List (String × Tree) :=
  [("a.css", .file "".toUTF8), ("node_modules", .dir [("x.css", .file "".toUTF8)]),
    ("a", .dir [("b.CSS", .file "".toUTF8)]), ("z.css", .dir [])]

/-- A file tree that is that directory. -/
def sheetStore : Store := ⟨.dir sheetEntries, []⟩

/-- A scan of that directory finds two stylesheets. The one further down comes first, although a
slash comes behind a dot; it is gone if its directory is ignored as well. -/
theorem scan_lists_exactly_sheetStore :
    sheetStore.find (Path.fromRoot []) = .ok (.dir sheetEntries)
      ∧ (Tree.dir sheetEntries).WellFormed
      ∧ ∃ paths, sheetStore.scan ⟨[".Css"], ["node_modules"]⟩ (Path.fromRoot []) = .ok paths
        ∧ paths = ["a/b.CSS", "a.css"]
        ∧ (paths.Pairwise fun path later => slashSegments path < slashSegments later)
        ∧ ∃ fewer, sheetStore.scan ⟨[".Css"], ["node_modules", "a"]⟩ (Path.fromRoot []) = .ok fewer
          ∧ fewer.Sublist paths := by
  have hfind : sheetStore.find (Path.fromRoot []) = .ok (.dir sheetEntries) := rfl
  have hwell : (Tree.dir sheetEntries).WellFormed := by
    simp only [sheetEntries, Tree.WellFormed, Tree.HasNames, EntriesHaveNames]
    decide
  have hrun : (sheetStore.scan ⟨[".Css"], ["node_modules"]⟩ (Path.fromRoot [])).toOption
      = some ["a/b.CSS", "a.css"] := by decide +kernel
  obtain ⟨paths, hpaths, -, -, hsorted, hless⟩ :=
    scan_lists_exactly ⟨[".Css"], ["node_modules"]⟩ hfind hwell
  have hlist : paths = ["a/b.CSS", "a.css"] := by
    rw [hpaths] at hrun
    exact Option.some.inj hrun
  exact ⟨hfind, hwell, paths, hpaths, hlist, hsorted,
    hless ⟨[".Css"], ["node_modules", "a"]⟩ (List.Subset.refl _) (by simp)⟩

end StyleAudit
