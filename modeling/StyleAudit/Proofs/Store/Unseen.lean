import StyleAudit.Proofs.Outcome
import StyleAudit.Proofs.Store.Places
import StyleAudit.Proofs.Store.Writing

/-!
# What a scan does not see

A new directory, and a file whose name is not wanted, are not seen by a scan. The entries of a
directory are brought in the order of their names, so one without finds takes nothing from the
others and moves none of them, wherever it stands (`inNameOrder_concat_nil`). So a scan finds the
same before and after (`Store.scan_put`).
-/

namespace StyleAudit

/-! ## Entries without finds -/

section Order

variable {α : Type}

theorem sorted_insertByName {named : String × α} {entries : List (String × α)}
    (h : entries.Pairwise fun a b => a.1 ≤ b.1) :
    (insertByName named entries).Pairwise fun a b => a.1 ≤ b.1 := by
  induction entries with
  | nil => exact List.pairwise_singleton _ _
  | cons first rest ih =>
    obtain ⟨hfirst, hrest⟩ := List.pairwise_cons.mp h
    rw [insertByName]
    split
    · next hle =>
      refine List.pairwise_cons.mpr ⟨fun entry hentry => ?_, h⟩
      rcases List.mem_cons.mp hentry with rfl | hentry
      · exact hle
      · exact String.le_trans hle (hfirst entry hentry)
    · next hnot =>
      have hle : first.1 ≤ named.1 := (String.le_total _ _).resolve_left hnot
      refine List.pairwise_cons.mpr ⟨fun entry hentry => ?_, ih hrest⟩
      rcases List.mem_cons.mp ((insertByName_perm named rest).mem_iff.mp hentry) with rfl | hentry
      · exact hle
      · exact hfirst entry hentry

theorem sorted_foldr_insertByName (entries : List (String × α)) :
    (entries.foldr insertByName []).Pairwise fun a b => a.1 ≤ b.1 := by
  induction entries with
  | nil => exact .nil
  | cons entry entries ih => exact sorted_insertByName ih

/-- An entry is put at the same place among those that are kept as among all. -/
theorem filter_insertByName (keep : String × α → Bool) (named : String × α)
    {entries : List (String × α)} (h : entries.Pairwise fun a b => a.1 ≤ b.1) :
    (insertByName named entries).filter keep
      = if keep named then insertByName named (entries.filter keep) else entries.filter keep := by
  induction entries with
  | nil => simp [insertByName, List.filter_cons]
  | cons first rest ih =>
    obtain ⟨hfirst, hrest⟩ := List.pairwise_cons.mp h
    rw [insertByName]
    split
    · next hle =>
      -- what is kept of the entries starts with a name that is no smaller
      have hfront : insertByName named ((first :: rest).filter keep)
          = named :: (first :: rest).filter keep := by
        cases hkept : (first :: rest).filter keep with
        | nil => rfl
        | cons next others =>
          have hnext : next ∈ (first :: rest).filter keep := hkept ▸ List.mem_cons_self
          have hmem := List.mem_of_mem_filter hnext
          rw [insertByName, if_pos]
          rcases List.mem_cons.mp hmem with rfl | hmem
          · exact hle
          · exact String.le_trans hle (hfirst next hmem)
      rw [hfront, List.filter_cons]
    · next hnot =>
      rw [List.filter_cons, ih hrest, List.filter_cons]
      by_cases hkeep : keep first = true
      · simp only [if_pos hkeep, insertByName, if_neg hnot]
        split <;> rfl
      · simp only [if_neg hkeep]

theorem filter_foldr_insertByName (keep : String × α → Bool) (entries : List (String × α)) :
    (entries.foldr insertByName []).filter keep
      = (entries.filter keep).foldr insertByName [] := by
  induction entries with
  | nil => rfl
  | cons entry entries ih =>
    rw [List.foldr_cons, filter_insertByName keep entry (sorted_foldr_insertByName entries), ih,
      List.filter_cons]
    split <;> rfl

end Order

/-- Only the entries with finds count. -/
theorem inNameOrder_filter (found : List (String × List (List String))) :
    inNameOrder (found.filter fun entry => !entry.2.isEmpty) = inNameOrder found := by
  have hdrop (entries : List (String × List (List String))) :
      (entries.filter fun entry => !entry.2.isEmpty).flatMap (·.2) = entries.flatMap (·.2) := by
    induction entries with
    | nil => rfl
    | cons entry entries ih =>
      rw [List.filter_cons]
      split
      · rw [List.flatMap_cons, ih, List.flatMap_cons]
      · next hempty =>
        have hnone : entry.2 = [] := by simpa using hempty
        rw [ih, List.flatMap_cons, hnone, List.nil_append]
  rw [inNameOrder, ← filter_foldr_insertByName, hdrop, inNameOrder]

/-- An entry without finds changes nothing, wherever its name belongs. -/
theorem inNameOrder_concat_nil (found : List (String × List (List String))) (name : String) :
    inNameOrder (found ++ [(name, [])]) = inNameOrder found := by
  rw [← inNameOrder_filter (found ++ _), List.filter_append, ← inNameOrder_filter found]
  simp

/-! ## Trees -/

section Trees

variable {rule : ScanRule} {name : String} {new old tree : Tree} {place above start : List String}
  {entries : List (String × Tree)}

theorem scanEntries_eq_map (rule : ScanRule) (entries : List (String × Tree)) :
    scanEntries rule entries
      = entries.map fun entry => (entry.1, scanEntry rule entry.1 entry.2) := by
  induction entries with
  | nil => rfl
  | cons entry entries ih => rw [scanEntries, ih, List.map_cons]

/-- An entry can be replaced by one with the same finds. -/
theorem scanEntries_setEntry_of_lookup (hlookup : entries.lookup name = some old)
    (hfinds : scanEntry rule name new = scanEntry rule name old) :
    scanEntries rule (setEntry name new entries) = scanEntries rule entries := by
  induction entries with
  | nil => cases hlookup
  | cons entry entries ih =>
    obtain ⟨name', tree'⟩ := entry
    by_cases hname : name' = name
    · subst hname
      obtain rfl : tree' = old := by simpa [List.lookup_cons] using hlookup
      rw [setEntry, if_pos rfl, scanEntries, scanEntries, hfinds]
    · have hother : (name == name') = false := by simpa using fun heq => hname heq.symm
      rw [List.lookup_cons, hother] at hlookup
      rw [setEntry, if_neg hname, scanEntries, scanEntries, ih hlookup]

/-- Whether the directories with these entries look the same to a scan. -/
def LookSame (rule : ScanRule) (entries entries' : List (String × Tree)) : Prop :=
  inNameOrder (scanEntries rule entries) = inNameOrder (scanEntries rule entries')

theorem LookSame.scanEntry_eq {entries' : List (String × Tree)}
    (h : LookSame rule entries entries') :
    scanEntry rule name (.dir entries) = scanEntry rule name (.dir entries') := by
  rw [scanEntry, scanEntry, h]

/-- Whether a scan sees neither what is put at a place nor what is there. -/
structure Unseen (rule : ScanRule) (tree : Tree) (above : List String) (name : String)
    (new : Tree) : Prop where
  new : scanEntry rule name new = []
  old : ∀ old, tree.at? (above ++ [name]) = some old → scanEntry rule name old = []

/-- A directory looks the same before and after something is put where it is not seen. -/
theorem Unseen.put_dir (h : Unseen rule (.dir entries) above name new) :
    ∃ entries', (Tree.dir entries).put (above ++ [name]) new = .dir entries'
      ∧ LookSame rule entries' entries := by
  induction above generalizing entries with
  | nil =>
    rw [List.nil_append, Tree.put]
    split
    · next old hlookup =>
      have hold : scanEntry rule name old = [] := h.old old (by simp [Tree.at?, hlookup])
      refine ⟨_, rfl, ?_⟩
      rw [LookSame, Tree.put, scanEntries_setEntry_of_lookup hlookup (h.new.trans hold.symm)]
    · next hlookup =>
      refine ⟨_, if_pos rfl, ?_⟩
      rw [LookSame, setEntry_of_not_mem new (not_mem_of_lookup_eq_none hlookup), scanEntries_eq_map,
        scanEntries_eq_map, List.map_append, List.map_singleton, h.new, inNameOrder_concat_nil]
  | cons first above ih =>
    rw [List.cons_append, Tree.put]
    split
    · next below hlookup =>
      have hbelow : Unseen rule below above name new :=
        ⟨h.new, fun old hold => h.old old (by simpa [Tree.at?, hlookup] using hold)⟩
      refine ⟨_, rfl, ?_⟩
      rw [LookSame, scanEntries_setEntry_of_lookup hlookup]
      cases below with
      | file bytes => cases above <;> rfl
      | dir inner =>
        obtain ⟨inner', hput, hsame⟩ := ih hbelow
        rw [hput, hsame.scanEntry_eq]
    · exact ⟨entries, if_neg (by simp), rfl⟩

/-- Every directory looks the same before and after something is put where it is not seen. -/
theorem Unseen.at?_put (h : Unseen rule tree above name new)
    (hfree : ¬ tree.IsDirAt (above ++ [name])) (hstart : tree.at? start = some (.dir entries)) :
    ∃ entries', (tree.put (above ++ [name]) new).at? start = some (.dir entries')
      ∧ LookSame rule entries' entries := by
  induction start generalizing tree above with
  | nil =>
    rw [Tree.at?_nil, Option.some.injEq] at hstart
    subst hstart
    obtain ⟨entries', hput, hsame⟩ := h.put_dir
    exact ⟨entries', by rw [hput, Tree.at?_nil], hsame⟩
  | cons first start ih =>
    cases tree with
    | file bytes => cases hstart
    | dir outer =>
      cases above with
      | nil =>
        by_cases hname : first = name
        · subst hname
          -- there is a directory below the place, so there is one at the place
          have hbelow : (Tree.dir outer).at? ([first] ++ start) = some (.dir entries) := hstart
          rcases List.eq_nil_or_concat start with rfl | ⟨_, _, rfl⟩
          · exact absurd ⟨entries, hstart⟩ hfree
          · exact absurd (Tree.exists_dir_of_at?_append (by simp) hbelow) hfree
        · refine ⟨entries, ?_, rfl⟩
          rw [List.nil_append, Tree.at?_put_of_ne_head hname, hstart]
      | cons next above =>
        by_cases hname : first = next
        · subst hname
          cases hlookup : outer.lookup first with
          | none => simp [Tree.at?, hlookup] at hstart
          | some below =>
            have hstart' : below.at? start = some (.dir entries) := by
              simpa [Tree.at?, hlookup] using hstart
            have hfree' : ¬ below.IsDirAt (above ++ [name]) := by
              rintro ⟨inner, hinner⟩
              exact hfree ⟨inner, by simpa [Tree.at?, hlookup] using hinner⟩
            have hbelow : Unseen rule below above name new :=
              ⟨h.new, fun old hold => h.old old (by simpa [Tree.at?, hlookup] using hold)⟩
            simpa [Tree.put, Tree.at?, hlookup, lookup_setEntry_self] using
              ih hbelow hfree' hstart'
        · refine ⟨entries, ?_, rfl⟩
          rw [List.cons_append, Tree.at?_put_of_ne_head hname, hstart]

end Trees

/-! ## Directories above directories -/

namespace Tree.IsDirAt

variable {tree : Tree} {place : List String}

theorem top (h : tree.IsDirAt place) : tree.IsDirAt [] := by
  obtain ⟨entries, hdir⟩ := h
  cases tree with
  | file bytes => cases place <;> cases hdir
  | dir outer => exact ⟨outer, at?_nil _⟩

theorem dropLast (h : tree.IsDirAt place) : tree.IsDirAt place.dropLast := by
  rcases List.eq_nil_or_concat' place with rfl | ⟨above, name, rfl⟩
  · exact h
  · obtain ⟨entries, hdir⟩ := h
    rw [List.dropLast_concat]
    exact exists_dir_of_at?_append (List.cons_ne_nil _ _) hdir

end Tree.IsDirAt

/-! ## Stores -/

namespace Store

variable {store written : Store} {rule : ScanRule} {rules : List ScanRule} {path : Path}
  {above place : List String} {name : String} {new : Tree} {bytes : ByteArray}

/-- A scan finds the same before and after something is put where it is not seen. -/
theorem scan_put {directory : Path} {paths : List String}
    (hunseen : Unseen rule store.tree above name new)
    (hfree : ¬ store.tree.IsDirAt (above ++ [name]))
    (hleaf : ∀ name below, new.at? (name :: below) = none)
    (h : store.scan rule directory = .ok paths) :
    (store.put (above ++ [name]) new).scan rule directory = .ok paths := by
  obtain ⟨start, entries, hstart, hentries, rfl⟩ := scan_eq_ok rule h
  obtain ⟨entries', hentries', hsame⟩ := hunseen.at?_put hfree hentries
  have hfound : (store.put (above ++ [name]) new).find directory = .ok (.dir entries') := by
    rw [find, locate_put hfree hleaf hstart]
    simp only [put, hentries']
  rw [scan, Store.entries, hfound, ← hsame]
  rfl

/-- The second store has what the first one has, but for the file at a place: paths lead where they
led, the other files and the directories are there, and scans by some rules find what they found. -/
structure Keeps (rules : List ScanRule) (place : List String) (before after : Store) : Prop where
  here_eq : after.here = before.here
  locate_eq : ∀ {path target}, before.locate path = .ok target → after.locate path = .ok target
  bytes_eq : ∀ {other found}, other ≠ place → before.tree.at? other = some found →
    (after.tree.at? other).map Tree.bytes? = some found.bytes?
  scan_eq : ∀ rule ∈ rules, ∀ {directory paths}, before.scan rule directory = .ok paths →
    after.scan rule directory = .ok paths

theorem Keeps.refl (store : Store) : Keeps rules place store store where
  here_eq := rfl
  locate_eq := id
  bytes_eq _ hfound := by rw [hfound, Option.map_some]
  scan_eq _ _ _ _ := id

theorem Keeps.trans {first second third : Store} (h : Keeps rules place first second)
    (h' : Keeps rules place second third) : Keeps rules place first third where
  here_eq := h'.here_eq.trans h.here_eq
  locate_eq hpath := h'.locate_eq (h.locate_eq hpath)
  bytes_eq hne hfound := by
    obtain ⟨between, hbetween, hsame⟩ := Option.map_eq_some_iff.mp (h.bytes_eq hne hfound)
    rw [h'.bytes_eq hne hbetween, hsame]
  scan_eq rule hrule _ _ hscan := h'.scan_eq rule hrule (h.scan_eq rule hrule hscan)

theorem keeps_put (hunseen : ∀ rule ∈ rules, Unseen rule store.tree above name new)
    (hfree : ¬ store.tree.IsDirAt (above ++ [name]))
    (hleaf : ∀ name below, new.at? (name :: below) = none)
    (hplace : above ++ [name] = place ∨ store.tree.at? (above ++ [name]) = none) :
    Keeps rules place store (store.put (above ++ [name]) new) where
  here_eq := rfl
  locate_eq := locate_put hfree hleaf
  bytes_eq {other found} hne hfound := by
    have hother : other ≠ above ++ [name] := by
      rintro rfl
      rcases hplace with rfl | hnone
      · exact hne rfl
      · rw [hnone] at hfound
        cases hfound
    rw [put, Tree.map_bytes?_at?_put hfree hleaf hother, hfound, Option.map_some]
  scan_eq rule hrule _ _ := scan_put (hunseen rule hrule) hfree hleaf

theorem keeps_makeDir {made : Store} (h : store.makeDir path = .ok made) :
    Keeps rules place store made := by
  rw [makeDir] at h
  split at h
  · cases h
  · next target htarget =>
    split at h
    · cases h
    · next hnone =>
      rw [Except.ok.injEq] at h
      subst h
      obtain ⟨above, name, rfl⟩ : ∃ above name, target = above ++ [name] := by
        rcases List.eq_nil_or_concat' target with rfl | hmore
        · simp at hnone
        · exact hmore
      have hfree : ¬ store.tree.IsDirAt (above ++ [name]) := by
        rintro ⟨entries, hdir⟩
        rw [hnone] at hdir
        cases hdir
      refine keeps_put (fun rule _ => ⟨?_, fun old hold => ?_⟩) hfree Tree.at?_dir_nil_cons
        (.inr hnone)
      · rw [scanEntry]
        split <;> rfl
      · rw [hnone] at hold
        cases hold

theorem keeps_ensureDirs (store : Store) (path : Path) :
    Keeps rules place store (store.ensureDirs path).1 :=
  rel_ensureDirs Keeps.refl Keeps.trans keeps_makeDir store path

/-- Where there is no directory, a path leads to its name in some directory. -/
theorem exists_above_of_locate (hhere : store.tree.IsDirAt store.here)
    (hplace : store.locate path = .ok place) (hfree : ¬ store.tree.IsDirAt place) :
    ∃ above, place = above ++ [path.name] := by
  rw [locate] at hplace
  split at hplace
  · cases hplace
  · generalize hstart : (if path.isAbsolute then [] else store.here) = start at hplace
    have hstartDir : store.tree.IsDirAt start := by
      rw [← hstart]
      split
      · exact hhere.top
      · exact hhere
    rcases List.eq_nil_or_concat' path.segments with hnil | ⟨front, segment, hsegments⟩
    · rw [hnil, follow, Except.ok.injEq] at hplace
      exact absurd (hplace ▸ hstartDir) hfree
    · rw [hsegments, follow_append] at hplace
      obtain ⟨between, -, hlast⟩ := bind_eq_ok hplace
      rw [follow] at hlast
      split at hlast
      · cases hlast
      · cases hlast
      · next entries hbetween =>
        rw [follow, Except.ok.injEq] at hlast
        split at hlast
        · -- what a double dot leads to is a directory
          exact absurd (hlast ▸ Tree.IsDirAt.dropLast ⟨entries, hbetween⟩) hfree
        · refine ⟨between, ?_⟩
          rw [Path.name, hsegments, List.getLast?_concat, Option.getD_some, hlast]

/-- All but the file is kept when a file is written whose name is not wanted. -/
theorem keeps_write (hhere : store.tree.IsDirAt store.here)
    (hrules : ∀ rule ∈ rules, rule.wants path.name = false)
    (hplace : store.locate path = .ok place) (h : store.write path bytes = .ok written) :
    Keeps rules place store written := by
  obtain ⟨place', hplace', hfree, rfl⟩ := write_eq_ok_iff.mp h
  obtain rfl := Except.ok.inj (hplace.symm.trans hplace')
  obtain ⟨above, rfl⟩ := exists_above_of_locate hhere hplace hfree
  have hunwanted (rule : ScanRule) (hrule : rule ∈ rules) (bytes : ByteArray) :
      scanEntry rule path.name (.file bytes) = [] := by
    rw [scanEntry, hrules rule hrule]
    rfl
  refine keeps_put (fun rule hrule => ⟨hunwanted rule hrule bytes, fun old hold => ?_⟩) hfree
    (Tree.at?_file_cons bytes) (.inl rfl)
  cases old with
  | file bytes' => exact hunwanted rule hrule bytes'
  | dir entries => exact absurd ⟨entries, hold⟩ hfree

/-! ## Reading a store that keeps what it had -/

namespace Keeps

variable {before after : Store}

/-- The files that were there can be read as before. -/
theorem read_eq (h : Keeps rules place before after) (hread : before.read path = .ok bytes)
    (hne : before.locate path ≠ .ok place) : after.read path = .ok bytes := by
  rw [read, find] at hread
  cases htarget : before.locate path with
  | error problem => simp [htarget] at hread
  | ok target =>
    have hother : target ≠ place := fun heq => hne (heq ▸ htarget)
    cases hfound : before.tree.at? target with
    | none => simp [htarget, hfound] at hread
    | some found =>
      cases found with
      | dir entries => simp [htarget, hfound] at hread
      | file found =>
        obtain rfl : found = bytes := by simpa [htarget, hfound] using hread
        obtain ⟨tree, htree, hbytes⟩ := Option.map_eq_some_iff.mp (h.bytes_eq hother hfound)
        cases tree with
        | dir entries => cases hbytes
        | file kept =>
          obtain rfl : kept = found := Option.some.inj hbytes
          rw [read, find, h.locate_eq htarget]
          simp only [htree]

/-- What was there is a file if and only if it was one. -/
theorem isFile_eq (h : Keeps rules place before after) {target : List String} {found : Tree}
    (htarget : before.locate path = .ok target) (hfound : before.tree.at? target = some found)
    (hne : target ≠ place) : after.isFile path = before.isFile path := by
  obtain ⟨kept, hkept, hbytes⟩ := Option.map_eq_some_iff.mp (h.bytes_eq hne hfound)
  rw [isFile, find, h.locate_eq htarget, isFile, find, htarget]
  simp only [hkept, hfound]
  cases kept <;> cases found <;> first | rfl | cases hbytes

end Keeps

end Store

end StyleAudit
